import Taraxacum.Json.Encode
import Taraxacum.Rapidjson

open json

namespace taraxacum.rapidjson

section
variable {ν : Type}

/-- `Parse` yields the value a text denotes. -/
def ParsesTexts (num : Bytes → ν) (Parse : Bytes → Except ParseError (Value ν)) : Prop :=
  ∀ s v, Denotes num s v → Parse s = .ok v

/-- `Parse` accepts exactly the texts, and yields the value each of them denotes. -/
def ParsesExactly (num : Bytes → ν) (Parse : Bytes → Except ParseError (Value ν)) : Prop :=
  ∀ s v, Parse s = .ok v ↔ Denotes num s v

/-- The writer puts out a text of the whole document when its numbers are finite, and
    otherwise stops on the way and says so. -/
structure WritesTexts (num : Bytes → ν) (finite : ν → Prop) (rj : Rapidjson ν) : Prop where
  whole : ∀ v, v.All finite → (rj.Accept v).1 = true ∧ WellFormed num (rj.Accept v).2
  partialOutput : ∀ v, ¬ v.All finite → (rj.Accept v).1 = false

end

/-- RapidJSON as far as a decoder and an encoder of the grammar go, with numbers kept
    as they are spelled. Every error is an invalid value at the start. -/
def reference : Rapidjson Bytes where
  Parse s := (parse id s).elim (.error ⟨0, 3⟩) .ok
  ParseStopWhenDone s := (value id (2 * s.length + 1) (skipWs s)).elim (.error ⟨0, 3⟩) fun v => .ok v.1
  ParseStream s := (parse id s).elim (.error ⟨0, 3⟩) .ok
  GetParseError_En _ := lit "Invalid value."
  Accept v := if v.All fun n => isNumeral n = true then (true, encode id v) else (false, [])

/-- The reference reads a text as what it denotes. -/
theorem reference_parsesTexts : ParsesTexts id reference.Parse := by
  intro s v h
  simp [reference, parse_eq_some_iff.mpr h]

/-- The reference takes nothing but texts. -/
theorem reference_parsesExactly : ParsesExactly id reference.Parse := by
  intro s v
  rw [← parse_eq_some_iff]
  cases hparse : parse id s with
  | none => simp [reference, hparse]
  | some w => simp [reference, hparse]

/-- With what follows left aside, the reference reads a text as what it denotes. -/
theorem reference_parsesFirst : ParsesTexts id reference.ParseStopWhenDone := by
  intro s v h
  have hparse := parse_eq_some_iff.mpr h
  unfold parse at hparse
  split at hparse
  · rename_i w r hvalue
    split at hparse
    · cases hparse
      simp [reference, hvalue]
    · cases hparse
  · cases hparse

/-- What the reference writes denotes what it was given, numbers being their numerals. -/
theorem reference_writesTexts : WritesTexts id (fun n => isNumeral n = true) reference where
  whole v h := by
    have hreads : (fun n => isNumeral n = true) = Reads id id := by
      funext n
      simp [Reads]
    have hdenotes : Denotes id (encode id v) v := by
      apply denotes_encode
      rwa [hreads] at h
    simp only [reference, h, if_true, true_and]
    exact ⟨v, hdenotes⟩
  partialOutput v h := by
    simp only [reference, h, if_false]

end taraxacum.rapidjson
