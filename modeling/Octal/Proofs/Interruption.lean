import Mathlib
import Octal.Proofs.Scan.Unfinished

/-!
# Read failures

A source whose reader fails is parsed as far as it was read. Where that gives an error of its own, not the reader's, the
error should be one of the text: whatever follows the text, it is the error of the whole. That is so unless the error
is at an unfinished place (`Session.evaluate_cutOff`), for the last character counts as a token or as stray although
the next one was never read.

The error depends on settled items only (`Program.parse_cutOff`), but for a parameter that is named twice, which any
token after it brings to light.
-/

namespace Octal

open Parse

namespace Parse

namespace State
variable {s : State} {e : Error}

theorem program_of_failed (h : s.stage = .failed e) (items : List Item) :
    (items.foldl feed s).program = ⟨s.statements.reverse, some e⟩ := by
  obtain ⟨statements, stage⟩ := s
  cases h
  rw [run_failed]
  rfl

theorem stage_feed_stray (h : ∀ f, s.stage ≠ .failed f) (pos : Nat) (c : Char) :
    (s.feed (.stray pos c)).stage = .failed (.malformed (some pos) (.strayCharacter c)) := by
  rw [stage_feed]
  cases hs : s.stage with
  | failed f => exact absurd hs (h f)
  | _ => rfl

/-- A parse that has not failed before the cut fails with what cut the source off. -/
theorem stage_of_fault_cut {cause : Error} (h : (s.feed (.failed cause)).program.fault = some e) (hne : e ≠ cause) :
    s.stage = .failed e := by
  have hstage := stage_of_fault h
  rw [stage_feed] at hstage
  cases hs : s.stage with
  | failed f => rwa [hs] at hstage
  | _ =>
    rw [hs] at hstage
    cases hstage
    exact absurd rfl hne

end State

/-- A parameter that is named twice is reported at whatever token comes next. -/
theorem Stage.step_duplicate {pos paramPos : Nat} {name param : String} {params : List String} {t : Token}
    (h : step (.defComma pos name params param paramPos) t =
      .failed (.malformed (some paramPos) (.duplicateParameter param))) (t' : Token) :
    step (.defComma pos name params param paramPos) t' =
      .failed (.malformed (some paramPos) (.duplicateParameter param)) := by
  rw [step] at h ⊢
  split at h
  · next hdup => rw [if_pos hdup]
  split at h
  · cases h
  · unfold expect at h
    split at h <;> cases h

/-- A token that the parse fails at is to blame, or any other would have made it fail the same way. -/
theorem State.feed_token_failed {s : State} {t : Token} {e : Error} (hs : ∀ f, s.stage ≠ .failed f)
    (h : (s.feed (.token t)).stage = .failed e) :
    Blames t e ∨ ∀ t', s.feed (.token t') = s.feed (.token t) := by
  have hstep : s.stage.step t = .failed e := by rw [← receive_token, ← stage_feed, h]
  rcases Stage.failed_of_step hstep with hfailed | hblames | ⟨pos, name, params, param, paramPos, hstage, rfl⟩
  · exact absurd hfailed (hs e)
  · exact .inl hblames
  · rw [hstage] at hstep
    refine .inr fun t' => ?_
    have hstep' := Stage.step_duplicate hstep t'
    obtain ⟨statements, stage⟩ := s
    cases hstage
    exact congrArg (State.mk statements) (hstep'.trans hstep.symm)

end Parse

namespace Program
variable {lexing : Lexing} {text : Bytes} {cause e : Error}

/-- The program of a text that is cut off is the one of the text however it goes on, or fails at an unfinished place. -/
theorem parse_cutOff (h : (Program.parse lexing ⟨text, .cutOff cause⟩).fault = some e) (hne : e ≠ cause) :
    (∀ rest, Program.parse lexing (.complete (text ++ rest)) = Program.parse lexing ⟨text, .cutOff cause⟩) ∨
      ∃ pos problem, e = .malformed (some pos) problem ∧ text.Unfinished pos := by
  obtain ⟨settled, remainder, hlast, hcut, hwhole⟩ := Source.exists_parts text cause
  have hparse {src : Source} {later : List Item} (hlater : src.items = settled ++ later) :=
    parse_of_items hlater lexing
  generalize (settled.filter lexing.admits).foldl State.feed .initial = s at hparse
  rw [hparse hcut] at h ⊢
  by_cases hfailed : ∃ f, s.stage = .failed f
  · obtain ⟨f, hf⟩ := hfailed
    refine .inl fun rest => ?_
    obtain ⟨later, hlater⟩ := hwhole rest
    rw [hparse hlater, State.program_of_failed hf, State.program_of_failed hf]
  have hs : ∀ f, s.stage ≠ .failed f := fun f hf => hfailed ⟨f, hf⟩
  have hadmits : lexing.admits (.failed cause) = true := by cases lexing <;> rfl
  cases hlast with
  | cut =>
    rw [List.filter_cons_of_pos hadmits] at h
    exact absurd (State.stage_of_fault_cut h hne) (hs e)
  | @token t hpos hk hnext =>
    rw [List.filter_cons_of_pos (lexing.admits_token t), List.filter_cons_of_pos hadmits, List.filter_nil,
      List.foldl_cons] at h ⊢
    have he := State.stage_of_fault_cut h hne
    rcases State.feed_token_failed hs he with ⟨⟨p, rfl, -⟩ | ⟨hnumber, -⟩⟩ | hany
    · exact .inr ⟨t.pos, p, rfl, hpos⟩
    · exact absurd hnumber hk
    · refine .inl fun rest => ?_
      obtain ⟨t', later, hlater⟩ := hnext rest
      rw [hparse hlater, List.filter_cons_of_pos (lexing.admits_token t'), List.foldl_cons, hany t',
        State.program_of_failed he, State.program_of_failed he]
  | @stray pos c more hpos hmore =>
    cases lexing with
    | lenient =>
      rw [List.filter_cons_of_neg Bool.false_ne_true, hmore] at h
      exact absurd (State.stage_of_fault_cut h hne) (hs e)
    | strict =>
      rw [List.filter_cons_of_pos rfl, List.foldl_cons,
        State.program_of_failed (State.stage_feed_stray hs pos c)] at h
      cases h
      exact .inr ⟨pos, _, rfl, hpos⟩

end Program

/-! ### The item to blame -/

/-- A numeral without a value is not reported at a place, so a problem at one is with the token itself. -/
theorem Parse.Blames.about {t : Token} {pos : Nat} {problem : Problem}
    (h : Blames t (.malformed (some pos) problem)) : t.pos = pos ∧ problem.About t.toLexeme := by
  rcases h with ⟨p, heq, habout⟩ | ⟨-, hdecode⟩
  · cases heq
    exact ⟨rfl, habout⟩
  · cases Numeral.unplaced_decode _ _ hdecode

theorem Item.pos?_of_faulty {item : Item} {pos : Nat} {problem : Problem}
    (h : item.Faulty (.malformed (some pos) problem)) (hne : item ≠ .failed (.malformed (some pos) problem)) :
    item.pos? = some pos := by
  cases item with
  | token t => exact congrArg some (Blames.about h).1
  | stray pos' c =>
    cases h
    rfl
  | failed cause =>
    cases h
    exact absurd rfl hne

theorem Problem.About.text_eq {problem : Problem} {l l' : Lexeme} (h : problem.About l) (h' : problem.About l')
    (hk : l.kind ≠ .eof) (hfits : l.Fits) (hfits' : l'.Fits) : l.text = l'.text := by
  cases problem with
  | unexpected | expected | trailing | bodyContinues | duplicateParameter => rw [h, h']
  | unknownComparison => exact Eq.trans h h'.symm
  | misplacedDefinition =>
    have keyword {l : Lexeme} (hfits : l.Fits) (hl : l.kind = .kwDef) : l.text = "DEF" :=
      hfits.text_keyword (by rw [hl]; decide)
    rw [keyword hfits h, keyword hfits' h']
  | endOfExpression => exact absurd h hk
  | strayCharacter | emptyNumeral | unknownOperator | described => cases h

/-- Two items with the same problem show the same characters. -/
theorem Source.chars_eq_of_faulty {src src' : Source} {item item' : Item} {pos : Nat} {problem : Problem}
    (hitem : item ∈ src.items) (hitem' : item' ∈ src'.items) (hpos : item.pos? = some pos)
    (hpos' : item'.pos? = some pos) (hlt : pos < src.text.length) (hlt' : pos < src'.text.length)
    (h : item.Faulty (.malformed (some pos) problem)) (h' : item'.Faulty (.malformed (some pos) problem)) :
    item.chars = item'.chars := by
  cases item with
  | token t =>
    have habout := (Blames.about h).2
    cases hpos
    obtain ⟨hk, hfits⟩ := Source.fits_of_lt hitem hlt
    cases item' with
    | token t' =>
      have hfits' := (Source.fits_of_lt hitem' ((Option.some.inj hpos').symm ▸ hlt')).2
      exact congrArg String.toList (habout.text_eq (Blames.about h').2 hk hfits hfits')
    | stray =>
      cases h'
      cases habout
    | failed => cases hpos'
  | stray pos' c =>
    cases h
    cases item' with
    | token t' => cases (Blames.about h').2
    | stray =>
      cases h'
      rfl
    | failed => cases hpos'
  | failed => cases hpos

/-- Only the end of the input can be what an expression ends before its end at. -/
theorem Source.not_faulty_endOfExpression {src : Source} {item : Item} {pos : Nat} (h : item ∈ src.items)
    (hpos : item.pos? = some pos) (hlt : pos < src.text.length) :
    ¬ item.Faulty (.malformed (some pos) .endOfExpression) := by
  intro hfaulty
  cases item with
  | token t =>
    cases hpos
    exact (Source.fits_of_lt h hlt).1 (Blames.about hfaulty).2
  | stray => cases hfaulty
  | failed => cases hpos

namespace Program

theorem fault_of_ending {p : Program} {e : Error} (h : p.ending = some e)
    (hne : e ≠ .malformed (some 0) .endOfExpression) : p.fault = some e := by
  unfold ending at h
  split at h
  · cases h
    exact absurd rfl hne
  · exact h

/-- A problem at a place is with an item at that place. -/
theorem exists_faulty_at {lexing : Lexing} {src : Source} {pos : Nat} {problem : Problem}
    (h : (Program.parse lexing src).fault = some (.malformed (some pos) problem))
    (hne : src.ending ≠ .cutOff (.malformed (some pos) problem)) :
    ∃ item ∈ src.items, item.pos? = some pos ∧ item.Faulty (.malformed (some pos) problem) := by
  obtain ⟨item, hitem, hfaulty⟩ := exists_faulty h
  have hmem : item ∈ src.items := Source.mem_items_of_mem_scan hitem
  refine ⟨item, hmem, Item.pos?_of_faulty hfaulty ?_, hfaulty⟩
  rintro rfl
  exact hne (Scan.State.ending_of_failed_mem_run hmem)

end Program

namespace Session
variable {s : Session} {text : Bytes} {cause e : Error}

theorem error_cases {src : Source} (h : s.evaluate src = .error e) :
    (perform s.settings s.registry 0 (Program.parse s.settings.lexing src).statements).1 = .error e ∨
      (Program.parse s.settings.lexing src).ending = some e := by
  rw [evaluate, outcome, result_run_eq] at h
  generalize hr : faulted _ _ = r at h
  cases r with
  | ok v => cases h
  | error e' =>
    cases h
    exact error_of_faulted hr

theorem ending_of_evaluate {src : Source} {pos : Nat} {problem : Problem}
    (h : s.evaluate src = .error (.malformed (some pos) problem)) :
    (Program.parse s.settings.lexing src).ending = some (.malformed (some pos) problem) := by
  rcases error_cases h with h | h
  · cases unplaced_perform _ _ _ _ _ h
  · exact h

theorem evaluate_of_isPrefix {src src' : Source}
    (hstart : (Program.parse s.settings.lexing src).statements <+: (Program.parse s.settings.lexing src').statements)
    (h : (perform s.settings s.registry 0 (Program.parse s.settings.lexing src).statements).1 = .error e) :
    s.evaluate src' = .error e := by
  obtain ⟨more, hmore⟩ := hstart
  rw [evaluate, outcome, result_run_eq, ← hmore, perform_append]
  generalize perform s.settings s.registry 0 _ = performed at h
  obtain ⟨r, registry⟩ := performed
  obtain rfl : r = .error e := h
  rfl

/-- A text that is cut off fails with an error other than what cut it off. However the text goes on, that is its error,
unless it is at an unfinished place. Then there is a way to go on without it. -/
theorem evaluate_cutOff (h : s.evaluate ⟨text, .cutOff cause⟩ = .error e) (hne : e ≠ cause) :
    (∀ rest, s.evaluate (.complete (text ++ rest)) = .error e) ↔
      ∀ pos problem, e = .malformed (some pos) problem → ¬ text.Unfinished pos := by
  have hcut (rest : Bytes) : ∃ f ss, Program.parse s.settings.lexing ⟨text, .cutOff cause⟩ = ⟨ss, some f⟩ ∧
      ss <+: (Program.parse s.settings.lexing (.complete (text ++ rest))).statements := by
    have hparse := Program.parse_cutAt s.settings.lexing text.length cause (text ++ rest)
    rwa [Source.cutAt, List.take_left] at hparse
  constructor
  · rintro hstable pos problem rfl hunfinished
    obtain ⟨rest, hrest⟩ := hunfinished.exists_rest
    obtain ⟨f, ss, hparse, -⟩ := hcut rest
    have hlt := hunfinished.lt_length
    have hlt' : pos < (text ++ rest).length := by
      rw [List.length_append]
      omega
    have hending := ending_of_evaluate h
    rw [Program.ending_eq (by simp [hparse])] at hending
    obtain ⟨item, hitem, hpos, hfaulty⟩ := Program.exists_faulty_at hending fun heq => hne (Ending.cutOff.inj heq).symm
    -- no item of the cut text is the end of the input, so the whole text does not fail for want of a statement
    have hfault := Program.fault_of_ending (ending_of_evaluate (hstable rest)) fun heq => ?_
    · obtain ⟨item', hitem', hpos', hfaulty'⟩ := Program.exists_faulty_at hfault fun heq => by cases heq
      exact hrest _ item hitem item' hitem' hpos hpos'
        (Source.chars_eq_of_faulty hitem hitem' hpos hpos' hlt hlt' hfaulty hfaulty')
    · cases heq
      exact Source.not_faulty_endOfExpression hitem hpos hlt hfaulty
  · intro hsettled rest
    obtain ⟨f, ss, hparse, hstart⟩ := hcut rest
    -- a statement that fails is before the cut, and fails in the whole text too
    rcases error_cases h with hperform | hending
    · exact evaluate_of_isPrefix (by rwa [hparse]) hperform
    · rw [Program.ending_eq (by simp [hparse])] at hending
      rcases Program.parse_cutOff hending hne with hall | ⟨pos, problem, he, hunfinished⟩
      · rw [evaluate, outcome, hall rest]
        exact h
      · exact absurd hunfinished (hsettled pos problem he)

theorem evaluate_cutOff_surplus_paren :
    (new .default).evaluate ⟨Bytes.ofString "1 + )", .cutOff (.outside "read failed")⟩ =
        .error (.malformed (some 4) (.unexpected ⟨.closeParen, ")"⟩)) ∧
      ∀ rest, (new .default).evaluate (.complete (Bytes.ofString "1 + )" ++ rest)) =
        .error (.malformed (some 4) (.unexpected ⟨.closeParen, ")"⟩)) := by
  have h : (new .default).evaluate ⟨Bytes.ofString "1 + )", .cutOff (.outside "read failed")⟩ =
      .error (.malformed (some 4) (.unexpected ⟨.closeParen, ")"⟩)) := by cbv
  have hsettled : ¬ (Bytes.ofString "1 + )").Unfinished 4 := by
    rintro (⟨hr, hdrop, -⟩ | hbegins)
    · simp only [List.mem_cons, List.not_mem_nil, or_false] at hr
      rcases hr with rfl | rfl | rfl | rfl | rfl <;> exact absurd hdrop (by decide)
    · obtain ⟨r, runes, hdecode, hascii⟩ := hbegins.exists_rune []
      cases hdecode
      exact hascii (by decide)
  refine ⟨h, (evaluate_cutOff h (by simp)).2 ?_⟩
  rintro pos problem he
  cases he
  exact hsettled

/-- The `=` is taken for a token, though the next character makes it another one. -/
theorem evaluate_cutOff_equals :
    (new .default).evaluate ⟨Bytes.ofString "1=", .cutOff (.outside "read failed")⟩ =
        .error (.malformed (some 1) (.trailing ⟨.assign, "="⟩)) ∧
      (new .default).evaluate (.complete (Bytes.ofString "1=" ++ Bytes.ofString "=1")) = .ok "1" := by
  constructor <;> cbv

end Session

end Octal
