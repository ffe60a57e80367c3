import Mathlib
import Octal.Proofs.Rebuild

/-!
# Results as sources

A result is written as a numeral, sign included, and a source that is one numeral is read as that numeral: a minus that
begins a source has no operand before it, so it is the sign of the digits after it (`Program.parse_encode`). This is
what makes the least value readable, whose digits alone are too large for a value.
-/

namespace Octal

/-- What is written for a value is read as that value. -/
theorem Program.parse_encode (lexing : Lexing) (v : Value) :
    ∃ pos, parse lexing (.ofString (Numeral.encode v)) = ⟨[.eval (.num pos v)], none⟩ := by
  obtain ⟨t, hparse, herase⟩ := (Statement.eval (.num 0 v)).exists_parse_render trivial lexing
  have herase : t.erase = .eval (.num 0 v) := herase
  cases t with
  | define => cases herase
  | eval e =>
    have he : e.erase = .num 0 v := Statement.eval.inj herase
    cases e with
    | num pos w =>
      cases he
      exact ⟨pos, hparse⟩
    | var | neg | binary | cond | bind | call => cases he

namespace Session

theorem evaluate_encode (s : Session) (v : Value) :
    s.evaluate (.ofString (Numeral.encode v)) = .ok (Numeral.encode v) ∧ s.after (.ofString (Numeral.encode v)) = s := by
  obtain ⟨pos, hparse⟩ := Program.parse_encode s.settings.lexing v
  constructor
  · rw [evaluate, outcome, hparse]
    rfl
  · rw [after, outcome, hparse]
    rfl

/-- The result of any evaluation is a source. In every session, whatever its functions and settings, it evaluates to
itself and defines nothing. -/
theorem evaluate_result {s : Session} {src : Source} {r : String} (h : s.evaluate src = .ok r) (s' : Session) :
    s'.evaluate (.ofString r) = .ok r ∧ s'.after (.ofString r) = s' := by
  obtain ⟨-, v, -, -, -, rfl⟩ := exists_of_evaluate_eq_ok h
  exact s'.evaluate_encode v

/-- The least value, in a lenient session that allows one call at most and has a function already. -/
theorem evaluate_result_least :
    let s : Session := ⟨{ Settings.default with lexing := .lenient, maxDepth := 1 }, [⟨"f", [], .num 10 1⟩]⟩
    (new .default).evaluate (.ofString "-777777777777777777777-1") = .ok "-1000000000000000000000" ∧
      s.evaluate (.ofString "-1000000000000000000000") = .ok "-1000000000000000000000" ∧
      s.after (.ofString "-1000000000000000000000") = s := by
  intro s
  have h : (new .default).evaluate (.ofString "-777777777777777777777-1") = .ok "-1000000000000000000000" := by cbv
  exact ⟨h, evaluate_result h s⟩

end Session

end Octal
