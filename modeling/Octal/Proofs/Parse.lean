import Octal.Proofs.Parse.Completeness
import Octal.Proofs.Scan.Lexeme

/-!
# Parsing

The parser accepts the scripts of the grammar and nothing else. What it gives for one are the
statements that the script denotes, and as no two scripts have the same tokens, there is no choice.
-/

namespace Octal

open Grammar Parse

theorem Lexeme.Proper.kind_ne_eof {l : Lexeme} (h : l.Proper) : l.kind ≠ .eof := by
  intro hk
  simp [Proper, hk] at h

theorem Lexeme.Proper.legible {t : Token} (h : t.toLexeme.Proper) (hk : t.kind = .compare) :
    t.operator?.isSome := by
  simp only [Proper, hk] at h
  simpa [Token.operator?, hk] using h

namespace Program

/-- A source that scans without error parses, with the statements `trees`, when its tokens are
those of a script that says `trees`; and they are those of at most one. -/
theorem parse_eq_iff_script {lexing : Lexing} {src : Source} {ts : List Token}
    (h : src.scan lexing = ts.map .token) :
    (∀ trees, parse lexing src = ⟨trees, none⟩ ↔
      ∃ d : Script, d.tokens = ts ∧ d.Valid ∧ d.statements = trees) ∧
    ∀ d d' : Script, d.tokens = ts → d'.tokens = ts → d = d' := by
  obtain ⟨init, eof, rfl, hk, hp⟩ := Source.exists_eof_of_scan h
  have hl : Legible (init ++ [eof]) := by
    intro t ht hc
    rcases List.mem_append.1 ht with ht | ht
    · exact (hp t ht).legible hc
    · rw [List.mem_singleton.1 ht, hk] at hc
      cases hc
  refine ⟨fun trees => ?_, fun d d' hd hd' => Script.tokens_inj (hd.trans hd'.symm)⟩
  rw [parse, h]
  constructor
  · exact exists_script (fun t ht => (hp t ht).kind_ne_eof) ⟨eof, by simp [hk]⟩
  · rintro ⟨d, hd, hv, rfl⟩
    rw [← hd] at hl ⊢
    exact ofItems_script d hv hl

/-- Minus before power, powers to the right and differences to the left. -/
theorem script_of_definition_and_call :
    ∃ ts, (Source.ofString "DEF f(a)=-a^2^a;f(1)-2-3").scan .strict = ts.map .token ∧
      ∃ d : Script, d.tokens = ts ∧ d.Valid ∧ d.statements =
        [.define 0 ⟨"f", ["a"],
          .binary 11 .pow (.neg 9 (.var 10 "a")) (.binary 13 .pow (.num 12 2) (.var 14 "a"))⟩,
        .eval (.binary 22 .sub (.binary 20 .sub (.call 16 "f" [.num 18 1]) (.num 21 2)) (.num 23 3))] := by
  have h : (Source.ofString "DEF f(a)=-a^2^a;f(1)-2-3").scan .strict = List.map .token
      [⟨⟨.kwDef, "DEF"⟩, 0⟩, ⟨⟨.ident, "f"⟩, 4⟩, ⟨⟨.openParen, "("⟩, 5⟩, ⟨⟨.ident, "a"⟩, 6⟩,
        ⟨⟨.closeParen, ")"⟩, 7⟩, ⟨⟨.assign, "="⟩, 8⟩, ⟨⟨.minus, "-"⟩, 9⟩, ⟨⟨.ident, "a"⟩, 10⟩,
        ⟨⟨.power, "^"⟩, 11⟩, ⟨⟨.number, "2"⟩, 12⟩, ⟨⟨.power, "^"⟩, 13⟩, ⟨⟨.ident, "a"⟩, 14⟩,
        ⟨⟨.semicolon, ";"⟩, 15⟩, ⟨⟨.ident, "f"⟩, 16⟩, ⟨⟨.openParen, "("⟩, 17⟩, ⟨⟨.number, "1"⟩, 18⟩,
        ⟨⟨.closeParen, ")"⟩, 19⟩, ⟨⟨.minus, "-"⟩, 20⟩, ⟨⟨.number, "2"⟩, 21⟩, ⟨⟨.minus, "-"⟩, 22⟩,
        ⟨⟨.number, "3"⟩, 23⟩, ⟨⟨.eof, ""⟩, 24⟩] := by
    decide
  exact ⟨_, h, ((parse_eq_iff_script h).1 _).1 rfl⟩

end Program

end Octal
