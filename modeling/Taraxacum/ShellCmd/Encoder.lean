import Taraxacum.Json.Text
import Taraxacum.Json.Utf8
import Taraxacum.ShellCmd.Handler

open json

namespace taraxacum.ShellCmd

section
variable {ν : Type} (num : Bytes → ν)

/-- The object the response of a command is meant to be. -/
def response (c : Captured) : Value ν :=
  .object [(lit "cmd", .string (space :: c.ssout)), (lit "err", .string c.sserr)]

/-- A decoder reads `v` off the text. With `validate` it also asks for UTF-8. -/
def Decodes (validate : Bool) (s : Bytes) (v : Value ν) : Prop :=
  Denotes num s v ∧ (validate = true → ValidUtf8 s)

/-- Every octet captured stands for itself between quotes. -/
structure Plain (c : Captured) : Prop where
  ssout : isPlain c.ssout = true
  sserr : isPlain c.sserr = true

end

/-- What follows the second string. -/
def afterErr : Bytes := lit "\x7d"

/-- What follows the first string: the second member. -/
def afterCmd (c : Captured) : Bytes := lit ", \"err\":\"" ++ (c.sserr ++ quote :: afterErr)

/-- The response, cut where the value of `cmd` begins. -/
theorem jresp_eq (c : Captured) :
    jresp c = lbrace :: (lit " \"cmd\":\"" ++ (space :: c.ssout ++ quote :: afterCmd c)) := by
  simp only [jresp, afterCmd, List.append_assoc]
  rfl

section
variable {ν : Type} {num : Bytes → ν} {c : Captured}

/-- Output without quotes, backslashes and control characters stands in the response as it is. -/
theorem denotes_jresp (hplain : Plain c) : Denotes num (jresp c) (response c) := by
  have herrName : Chars (lit "err\":\"" ++ (c.sserr ++ quote :: afterErr)) (lit "err")
      (lit ":\"" ++ (c.sserr ++ quote :: afterErr)) := .of_plain (d := lit "err") (by decide) _
  have herr : IsValue num (quote :: (c.sserr ++ quote :: afterErr)) (.string c.sserr) afterErr :=
    .plainString hplain.sserr afterErr
  have hsecond : IsMembers num (lit " \"err\":\"" ++ (c.sserr ++ quote :: afterErr))
      [(lit "err", .string c.sserr)] [] := .last (.cons (by decide) .nil) herrName .nil .nil herr .nil
  have hcmdName : Chars (lit "cmd\":\"" ++ (space :: c.ssout ++ quote :: afterCmd c)) (lit "cmd")
      (lit ":\"" ++ (space :: c.ssout ++ quote :: afterCmd c)) := .of_plain (d := lit "cmd") (by decide) _
  have hout : isPlain (space :: c.ssout) = true := isPlain_cons.mpr ⟨by decide, hplain.ssout⟩
  have hcmd : IsValue num (quote :: (space :: c.ssout ++ quote :: afterCmd c)) (.string (space :: c.ssout))
      (afterCmd c) := .plainString hout (afterCmd c)
  rw [jresp_eq]
  apply Denotes.object
  exact .cons (.cons (by decide) .nil) hcmdName .nil .nil hcmd .nil hsecond

/-- Nothing of the second member can be the end of the first string: behind its
    opening quote comes a letter, not a comma. -/
theorem not_behind_cmd {d r s : Bytes} (hchars : Chars (afterCmd c) d r) : ¬ Ws r (comma :: s) := by
  have hclose : Chars (afterCmd c) (lit ", ") (lit "err\":\"" ++ (c.sserr ++ quote :: afterErr)) :=
    .of_plain (d := lit ", ") (by decide) _
  obtain ⟨_, rfl⟩ := hchars.unique hclose
  intro hws
  have hhead := hws.eq_of_not_ws (by decide)
  cases hhead

/-- No string goes on behind the closing quote of `err`: what is left is the brace. -/
theorem not_behind_err {d r : Bytes} : ¬ Chars afterErr d r := by
  intro h
  cases h with
  | plain _ htail => cases htail

/-- If the response denotes what was captured, none of it needed an escape. -/
theorem plain_of_denotes (h : Denotes num (jresp c) (response c)) : Plain c := by
  obtain ⟨s₁, r, hbefore, hvalue, _⟩ := h
  rw [jresp_eq] at hbefore
  obtain ⟨t, rfl, hmembers⟩ := hvalue.of_object
  obtain ⟨_, rfl⟩ := List.cons.inj (hbefore.eq_of_not_ws (by decide))
  have hcmdPlain : isPlain (lit "cmd") = true := by decide
  have herrPlain : isPlain (lit "err") = true := by decide
  obtain ⟨u, hcmd, ⟨hlast, _⟩ | ⟨s, hcomma, hrest⟩⟩ := hmembers.spliced hcmdPlain rfl
  · cases hlast
  obtain ⟨hout, rfl⟩ | ⟨d, hbehind⟩ := hcmd
  · obtain ⟨_, rfl⟩ := List.cons.inj (hcomma.eq_of_not_ws (by decide))
    obtain ⟨u, herr, _⟩ := hrest.spliced herrPlain rfl
    obtain ⟨herr, _⟩ | ⟨d, hbehind⟩ := herr
    · exact ⟨(isPlain_cons.mp hout).2, herr⟩
    · exact absurd hbehind not_behind_err
  · exact absurd hcomma (not_behind_cmd hbehind)

/-- What stands around the captured output is ASCII, so that the response is in UTF-8 if it is. -/
theorem validUtf8_jresp_iff (c : Captured) :
    ValidUtf8 (jresp c) ↔ ValidUtf8 c.ssout ∧ ValidUtf8 c.sserr := by
  have hend : ValidUtf8 afterErr := validUtf8_of_ascii (by decide)
  have hjresp : jresp c = lit "\x7b \"cmd\":\" " ++ (c.ssout ++ quote :: afterCmd c) := jresp_eq c
  rw [hjresp, validUtf8_ascii_append_iff (by decide), validUtf8_append_cons_iff (by decide), afterCmd,
    validUtf8_ascii_append_iff (by decide), validUtf8_append_cons_iff (by decide)]
  simp only [hend, and_true]

/-- The response is read back as the two texts captured exactly when none of their
    octets is a quote, a backslash or a control character and, for a decoder that asks
    for UTF-8, both are UTF-8. -/
theorem jresp_decodes_iff (num : Bytes → ν) (validate : Bool) (c : Captured) :
    Decodes num validate (jresp c) (response c) ↔
      Plain c ∧ (validate = true → ValidUtf8 c.ssout ∧ ValidUtf8 c.sserr) := by
  rw [Decodes, validUtf8_jresp_iff]
  exact and_congr_left fun _ => ⟨plain_of_denotes, denotes_jresp⟩

end

/-- A command that writes `x","cmd":"y` adds a member to the response. -/
theorem jresp_not_decoded :
    ¬ ∀ (validate : Bool) (c : Captured), 0x0A ∉ c.ssout → 0x0A ∉ c.sserr →
      Decodes id validate (jresp c) (response c) := by
  intro h
  obtain ⟨hdenotes, _⟩ := h false ⟨lit "x\",\"cmd\":\"y", []⟩ (by decide) (by decide)
  exact absurd (plain_of_denotes hdenotes).ssout (by decide)

end taraxacum.ShellCmd
