import Mathlib
import Octal.Proofs.Scan.Place
import Octal.Proofs.Session

/-!
# What an evaluation reports

A source that is read to its end fails in one of nine ways. Statements that are executed fail in arithmetic, in a
lookup or in a call. Before that the parser fails, at one of the items of the source (`Program.exists_faulty`), and
these stand where they say (`Source.stands_of_mem`). What is left is a source with nothing in it.
-/

namespace Octal

/-- The kinds of failure that an evaluation can have. -/
def Error.taxonomy : List String :=
  ["parse", "invalid_octal_digit", "variable_not_found", "function_not_defined", "invalid_argument_count",
    "recursion_limit", "division_by_zero", "negative_exponent", "overflow"]

theorem Error.category_mem_taxonomy {e : Error} (h : ∀ text, e ≠ .outside text) : e.category ∈ taxonomy := by
  cases e with
  | outside text => exact absurd rfl (h text)
  | _ => simp [category, taxonomy]

/-- The items of a complete text in which nothing is found. -/
def Source.vacant (text : Bytes) : List Item := [.token ⟨⟨.eof, ""⟩, text.length⟩]

/-- The offset `p` is the one to report for `problem`: that of the stray character that is the problem, or of a
token. In a text without either it is 0. -/
def Source.Locates (lexing : Lexing) (text : Bytes) (problem : Problem) (p : Nat) : Prop :=
  if (complete text).scan lexing = vacant text then p = 0
  else (∃ t, .token t ∈ (complete text).scan lexing ∧ t.pos = p ∧ (Item.token t).Stands text) ∨
    ∃ c, .stray p c ∈ (complete text).scan lexing ∧ problem = .strayCharacter c ∧ (Item.stray p c).Stands text

/-- What the failure of an evaluation of `text` tells about it. -/
structure Error.Reports (lexing : Lexing) (text : Bytes) (e : Error) : Prop where
  not_outside : ∀ cause, e ≠ .outside cause
  place : ∀ pos problem, e = .malformed pos problem →
    ∃ p, pos = some p ∧ p ≤ text.length ∧ Source.Locates lexing text problem p
  digit : ∀ c, e = .badDigit c → c = '8' ∨ c = '9'

namespace Source
variable {lexing : Lexing} {text : Bytes}

theorem le_length_of_stands {t : Token} (h : (Item.token t).Stands text) : t.pos ≤ text.length := by
  rcases h with ⟨-, h⟩ | ⟨cs, -, h⟩
  · exact h.le
  · exact h.le_length

theorem parse_vacant (h : (complete text).scan lexing = vacant text) :
    Program.parse lexing (.complete text) = ⟨[], none⟩ := by
  rw [Program.parse, h]
  rfl

/-- Where the parser finds neither a statement nor an error, the scanner finds nothing. -/
theorem scan_eq_vacant (h : Program.parse lexing (.complete text) = ⟨[], none⟩) :
    (complete text).scan lexing = vacant text := by
  obtain ⟨init, pos, hs, hp⟩ := (complete text).scan_eq lexing
  cases init with
  | nil =>
    rw [List.nil_append] at hs
    have hmem : .token ⟨⟨.eof, ""⟩, pos⟩ ∈ (complete text).scan lexing := hs ▸ List.mem_cons_self
    rcases stands_of_mem (mem_items_of_mem_scan hmem) with ⟨-, hpos⟩ | ⟨cs, hw, -⟩
    · rw [hs, vacant, ← hpos]
      rfl
    · exact absurd rfl hw.kind_ne_eof
  | cons item init =>
    -- The first item is a token, since there is no error, and it is not the end.
    have hfault : (Program.ofItems ((complete text).scan lexing)).fault = none := by rw [← Program.parse, h]
    obtain ⟨ts, hts⟩ := Program.exists_tokens_of_fault hfault
    rw [hs, List.cons_append] at hts
    cases ts with
    | nil => cases hts
    | cons t ts =>
      obtain ⟨rfl, -⟩ := List.cons.inj hts
      have hk := (hp t List.mem_cons_self).kind_ne_eof
      exact absurd (Program.kind_eq_eof_of_parse h hs) hk

/-- A numeral in a text is wrong for a digit or its size. -/
theorem error_of_numeral {t : Token} {cause : Error} (hs : (Item.token t).Stands text) (hk : t.kind = .number)
    (h : Numeral.decode t.text.toList = .error cause) :
    cause = .overflow ∨ cause = .badDigit '8' ∨ cause = .badDigit '9' := by
  rcases hs with ⟨heof, -⟩ | ⟨cs, hw, -⟩
  · rw [hk] at heof
    cases heof
  · rw [hw.text_eq] at h
    exact Numeral.error_of_isDigits (hw.isDigits hk) h

end Source

namespace Error.Reports
variable {lexing : Lexing} {text : Bytes} {e : Error}

theorem of_isEvaluation (h : e.IsEvaluation ∨ ∃ limit, e = .depthExceeded limit) : e.Reports lexing text := by
  rcases h with ((rfl | rfl | rfl) | ⟨_, rfl⟩ | ⟨_, rfl⟩ | ⟨_, _, _, rfl⟩) | ⟨_, rfl⟩ <;>
    exact ⟨by simp, by simp, by simp⟩

/-- An error of the parser is at the item that is to blame for it. -/
theorem of_fault (h : (Program.parse lexing (.complete text)).fault = some e) : e.Reports lexing text := by
  have hfound : (Source.complete text).scan lexing ≠ Source.vacant text := fun hv => by
    rw [Source.parse_vacant hv] at h
    cases h
  obtain ⟨item, hitem, hfaulty⟩ := Program.exists_faulty h
  have hmem : item ∈ (Source.complete text).items := Source.mem_items_of_mem_scan hitem
  have hstands := Source.stands_of_mem hmem
  cases item with
  | token t =>
    rcases hfaulty with ⟨p, rfl, -⟩ | ⟨hk, h⟩
    · refine ⟨by simp, fun pos problem he => ?_, by simp⟩
      cases he
      refine ⟨t.pos, rfl, Source.le_length_of_stands hstands, ?_⟩
      rw [Source.Locates, if_neg hfound]
      exact .inl ⟨t, hitem, rfl, hstands⟩
    · rcases Source.error_of_numeral hstands hk h with rfl | rfl | rfl <;> exact ⟨by simp, by simp, by simp⟩
  | stray pos c =>
    obtain rfl : e = _ := hfaulty
    refine ⟨by simp, fun pos' problem he => ?_, by simp⟩
    cases he
    refine ⟨pos, rfl, Bytes.HasAt.le_length hstands, ?_⟩
    rw [Source.Locates, if_neg hfound]
    exact .inr ⟨c, hitem, rfl, hstands⟩
  | failed cause => exact absurd hmem (Scan.State.failed_not_mem_run cause _ _)

theorem of_ending (h : (Program.parse lexing (.complete text)).ending = some e) : e.Reports lexing text := by
  unfold Program.ending at h
  split at h
  · next hs hf =>
    cases h
    refine ⟨by simp, fun pos problem he => ?_, by simp⟩
    cases he
    refine ⟨0, rfl, Nat.zero_le _, ?_⟩
    rw [Source.Locates, if_pos (Source.scan_eq_vacant (congr (congrArg Program.mk hs) hf))]
  · exact of_fault h

end Error.Reports

namespace Session

/-- An evaluation of a text that is all there, valid UTF-8 or not, fails in one of nine ways and never otherwise. If the
text is malformed, the position is in it: that of a token or of the stray character, the length of the text at its
end, and 0 for a text in which nothing is found. A wrong digit is 8 or 9. -/
theorem error_of_evaluate {s : Session} {text : Bytes} {e : Error} (h : s.evaluate (.complete text) = .error e) :
    e.category ∈ Error.taxonomy ∧ e.category ≠ "internal" ∧
    (∀ pos problem, e = .malformed pos problem →
      ∃ p, pos = some p ∧ p ≤ text.length ∧ Source.Locates s.settings.lexing text problem p) ∧
    ∀ c, e = .badDigit c → c = '8' ∨ c = '9' := by
  have hresult : (s.outcome (.complete text)).result = .error e := by
    rw [evaluate] at h
    cases hr : (s.outcome (.complete text)).result with
    | ok v =>
      rw [hr] at h
      cases h
    | error cause =>
      rw [hr] at h
      cases h
      rfl
  rw [outcome, result_run_eq] at hresult
  have hreports : e.Reports s.settings.lexing text := by
    rcases error_of_faulted hresult with h | h
    · exact .of_isEvaluation ((error_of_perform h).imp_right fun h => ⟨_, h⟩)
    · exact .of_ending h
  have hcategory := Error.category_mem_taxonomy hreports.not_outside
  refine ⟨hcategory, fun hinternal => ?_, hreports.place, hreports.digit⟩
  rw [hinternal] at hcategory
  exact absurd hcategory (by decide)

/-- After `1+`, the byte 0xC3 begins no character, since `(` does not continue it: it is reported, at its offset. -/
theorem error_of_evaluate_invalid :
    let text : Bytes := [0x31, 0x2B, 0xC3, 0x28]
    let problem : Problem := .strayCharacter Rune.replacement
    (new .default).evaluate (.complete text) = .error (.malformed (some 2) problem) ∧
      2 ≤ text.length ∧ Source.Locates .strict text problem 2 := by
  intro text problem
  have h : (new .default).evaluate (.complete text) = .error (.malformed (some 2) problem) := by cbv
  obtain ⟨-, -, hplace, -⟩ := error_of_evaluate h
  obtain ⟨p, hp, hle, hlocates⟩ := hplace _ _ rfl
  cases hp
  exact ⟨h, hle, hlocates⟩

end Session

end Octal
