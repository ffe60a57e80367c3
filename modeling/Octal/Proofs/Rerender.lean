import Mathlib
import Octal.Proofs.Rebuild

/-!
# Rendering what was read from a rendering

The rendering of a tree is read as a tree again, but the rendering of that tree need not be the same text. The negation
of a literal zero is written as `-0`, which is read as a numeral and written as `0`. This is the only exception: each
such negation costs the text its minus (`Expr.length_render_fold`), and without one the text stays as it is
(`Expr.render_fold`).
-/

namespace Octal

open Scan Text

mutual

/-- How many negations of a literal zero there are in the tree. -/
def Expr.negatedZeros : Expr → Nat
  | .neg _ (.num _ v) => if v = 0 then 1 else 0
  | .neg _ e => e.negatedZeros
  | .num .. | .var .. => 0
  | .binary _ _ l r => l.negatedZeros + r.negatedZeros
  | .cond _ c t e => c.negatedZeros + t.negatedZeros + e.negatedZeros
  | .bind _ _ v b => v.negatedZeros + b.negatedZeros
  | .call _ _ args => Expr.negatedZerosAll args

def Expr.negatedZerosAll : List Expr → Nat
  | [] => 0
  | e :: rest => e.negatedZeros + Expr.negatedZerosAll rest

end

def Statement.negatedZeros : Statement → Nat
  | .eval e => e.negatedZeros
  | .define _ f => f.body.negatedZeros

/-! ### Positions -/

theorem Expr.parenthesize_congr {e e' : Expr} (h : e'.isOpen = e.isOpen) (text : String) :
    e'.parenthesize text = e.parenthesize text := by
  unfold parenthesize
  rw [h]

theorem Expr.isOpen_mapPos (f : Nat → Nat) (e : Expr) : (e.mapPos f).isOpen = e.isOpen := by cases e <;> rfl

mutual

theorem Expr.render_mapPos (f : Nat → Nat) : (e : Expr) → (e.mapPos f).render = e.render
  | .num .. | .var .. => rfl
  | .neg _ e => by rw [mapPos, render, render, e.render_mapPos, parenthesize_congr (e.isOpen_mapPos f)]
  | .binary _ _ l r => by
    rw [mapPos, render, render, l.render_mapPos, r.render_mapPos, parenthesize_congr (l.isOpen_mapPos f),
      parenthesize_congr (r.isOpen_mapPos f)]
  | .cond _ c t e => by rw [mapPos, render, render, c.render_mapPos, t.render_mapPos, e.render_mapPos]
  | .bind _ _ v b => by rw [mapPos, render, render, v.render_mapPos, b.render_mapPos]
  | .call _ _ args => by rw [mapPos, render, render, Expr.renderAll_mapPosAll f args]

theorem Expr.renderAll_mapPosAll (f : Nat → Nat) : (es : List Expr) →
    Expr.renderAll (Expr.mapPosAll f es) = Expr.renderAll es
  | [] => rfl
  | e :: rest => by rw [mapPosAll, renderAll, renderAll, e.render_mapPos, Expr.renderAll_mapPosAll f rest]

end

theorem Statement.render_mapPos (f : Nat → Nat) (s : Statement) : (s.mapPos f).render = s.render := by
  cases s with
  | eval e => exact e.render_mapPos f
  | define pos fn =>
    show Function.render { fn with body := fn.body.mapPos f } = fn.render
    rw [Function.render, Function.render, fn.body.render_mapPos]

/-! ### Signs of zeros -/

/-- The opposite of a value above zero is written with a minus, that of zero is not. -/
theorem Numeral.encode_neg {v : Value} (h : 0 ≤ v) : encode (-v) = if v = 0 then "0" else "-" ++ encode v := by
  split
  · next hv =>
    rw [hv]
    decide
  · next hv =>
    have hlo := toInt_nonneg h
    have hne : v.toInt ≠ 0 := fun h0 => hv (Int64.toInt_inj.1 h0)
    have hhi := v.toInt_lt
    have hneg : (-v).toInt = -v.toInt := by
      have hofInt : -v = Int64.ofInt (-v.toInt) := by rw [Int64.ofInt_neg, Int64.ofInt_toInt]
      rw [hofInt, Int64.toInt_ofInt_of_le (by omega) (by omega)]
    rw [← String.toList_inj, String.toList_append, toList_encode_of_nonneg h,
      toList_encode_of_neg (Int64.lt_iff_toInt_lt.2 (show (-v).toInt < 0 by omega)), hneg, Int.natAbs_neg]
    rfl

theorem Expr.negatedZeros_neg {e : Expr} (pos : Nat) (h : ∀ p v, e = .num p v → v < 0) :
    (Expr.neg pos e).negatedZeros = e.negatedZeros := by
  cases e with
  | num p v =>
    have hv : v ≠ 0 := by
      rintro rfl
      exact absurd (h p 0 rfl) (by decide)
    simp [negatedZeros, hv]
  | _ => rfl

theorem Expr.isOpen_fold (e : Expr) : e.fold.isOpen = e.isOpen := by
  cases e with
  | neg pos e =>
    rcases e.eq_num_or with ⟨p, v, rfl, hv⟩ | hv
    · rw [fold, if_pos hv]
      rfl
    · rw [fold_neg pos hv]
      rfl
  | _ => rfl

theorem Expr.length_parenthesize (e : Expr) (text : String) :
    (e.parenthesize text).length = text.length + if e.isOpen then 2 else 0 := by
  unfold parenthesize
  split
  · rw [String.length_append, String.length_append]
    show 1 + text.length + 1 = _
    omega
  · rfl

theorem Expr.length_operand_fold {e : Expr} (h : e.fold.render.length + e.negatedZeros = e.render.length) :
    (e.fold.parenthesize e.fold.render).length + e.negatedZeros = (e.parenthesize e.render).length := by
  rw [length_parenthesize, length_parenthesize, isOpen_fold, ← h]
  omega

mutual

/-- Each negation of a literal zero costs a minus. -/
theorem Expr.length_render_fold : (e : Expr) → e.fold.render.length + e.negatedZeros = e.render.length
  | .num .. | .var .. => rfl
  | .neg pos e => by
    rcases e.eq_num_or with ⟨p, v, rfl, hv⟩ | hv
    · rw [fold, if_pos hv, render, Numeral.encode_neg hv, negatedZeros]
      split
      · next hzero =>
        have hrender : (Expr.neg pos (.num p 0)).render = "-0" := by
          show "-" ++ Numeral.encode 0 = "-0"
          decide
        rw [hzero, hrender]
        rfl
      · rfl
    · have hoperand := length_operand_fold e.length_render_fold
      rw [fold_neg pos hv, negatedZeros_neg pos hv, render, render, String.length_append, String.length_append]
      omega
  | .binary _ _ l r => by
    have hl := length_operand_fold l.length_render_fold
    have hr := length_operand_fold r.length_render_fold
    simp only [fold, render, negatedZeros, String.length_append]
    omega
  | .cond _ c t e => by
    have hc := c.length_render_fold
    have ht := t.length_render_fold
    have he := e.length_render_fold
    simp only [fold, render, negatedZeros, String.length_append]
    omega
  | .bind _ _ v b => by
    have hv := v.length_render_fold
    have hb := b.length_render_fold
    simp only [fold, render, negatedZeros, String.length_append]
    omega
  | .call _ _ args => by
    have hargs := Expr.length_renderAll_foldAll args
    simp only [fold, render, negatedZeros, String.length_append]
    omega

theorem Expr.length_renderAll_foldAll : (es : List Expr) →
    (", ".intercalate (Expr.renderAll (Expr.foldAll es))).length + Expr.negatedZerosAll es =
      (", ".intercalate (Expr.renderAll es)).length
  | [] => rfl
  | [e] => e.length_render_fold
  | e :: e' :: rest => by
    have he := e.length_render_fold
    have hrest := Expr.length_renderAll_foldAll (e' :: rest)
    simp only [foldAll, renderAll, negatedZerosAll, String.intercalate_cons_cons, String.length_append] at hrest ⊢
    omega

end

mutual

theorem Expr.render_fold : (e : Expr) → e.negatedZeros = 0 → e.fold.render = e.render
  | .num .., _ | .var .., _ => rfl
  | .neg pos e, h => by
    rcases e.eq_num_or with ⟨p, v, rfl, hv⟩ | hv
    · have hzero : v ≠ 0 := by simpa [negatedZeros] using h
      rw [fold, if_pos hv, render, Numeral.encode_neg hv, if_neg hzero]
      rfl
    · rw [negatedZeros_neg pos hv] at h
      rw [fold_neg pos hv, render, render, e.render_fold h, parenthesize_congr e.isOpen_fold]
  | .binary _ _ l r, h => by
    obtain ⟨hl, hr⟩ := Nat.add_eq_zero_iff.1 h
    rw [fold, render, render, l.render_fold hl, r.render_fold hr, parenthesize_congr l.isOpen_fold,
      parenthesize_congr r.isOpen_fold]
  | .cond _ c t e, h => by
    obtain ⟨hct, he⟩ := Nat.add_eq_zero_iff.1 h
    obtain ⟨hc, ht⟩ := Nat.add_eq_zero_iff.1 hct
    rw [fold, render, render, c.render_fold hc, t.render_fold ht, e.render_fold he]
  | .bind _ _ v b, h => by
    obtain ⟨hv, hb⟩ := Nat.add_eq_zero_iff.1 h
    rw [fold, render, render, v.render_fold hv, b.render_fold hb]
  | .call _ _ args, h => by rw [fold, render, render, Expr.renderAll_foldAll args h]

theorem Expr.renderAll_foldAll : (es : List Expr) → Expr.negatedZerosAll es = 0 →
    Expr.renderAll (Expr.foldAll es) = Expr.renderAll es
  | [], _ => rfl
  | e :: rest, h => by
    obtain ⟨he, hrest⟩ := Nat.add_eq_zero_iff.1 h
    rw [foldAll, renderAll, renderAll, e.render_fold he, Expr.renderAll_foldAll rest hrest]

end

namespace Statement
variable (s : Statement)

theorem length_render_fold : s.fold.render.length + s.negatedZeros = s.render.length := by
  cases s with
  | eval e => exact e.length_render_fold
  | define pos f =>
    have hbody := f.body.length_render_fold
    simp only [fold, render, negatedZeros, Function.render, String.length_append]
    omega

/-- The rendering that is read again is the same just when no zero loses its sign. -/
theorem render_fold_eq_iff : s.fold.render = s.render ↔ s.negatedZeros = 0 := by
  constructor
  · intro heq
    have hlength := s.length_render_fold
    rw [heq] at hlength
    omega
  · intro h
    cases s with
    | eval e => exact e.render_fold h
    | define pos f =>
      show Function.render { f with body := f.body.fold } = f.render
      rw [Function.render, Function.render, f.body.render_fold h]

end Statement

/-- A tree that the parser has made is rendered as a text that is read as one tree, under either lexing. The rendering of
that tree lacks the minus of every negated literal zero, so it is the same text just when there is none. -/
theorem Program.render_parse_render {lexing : Lexing} {src : Source} {t : Statement}
    (h : t ∈ (Program.parse lexing src).statements) (lexing' : Lexing) :
    ∃ t', Program.parse lexing' (.ofString t.render) = ⟨[t'], none⟩ ∧
      t'.render.length + t.negatedZeros = t.render.length ∧ (t'.render = t.render ↔ t.negatedZeros = 0) := by
  obtain ⟨t', hparse, herase⟩ := t.exists_parse_render (named_of_mem h) lexing'
  have hrender : t'.render = t.fold.render := calc
    t'.render = t'.erase.render := (t'.render_mapPos _).symm
    _ = t.fold.erase.render := by rw [herase]
    _ = t.fold.render := t.fold.render_mapPos _
  refine ⟨t', hparse, ?_, ?_⟩
  · rw [hrender]
    exact t.length_render_fold
  · rw [hrender]
    exact t.render_fold_eq_iff

/-- Two of the three minuses are lost. -/
theorem Program.render_parse_render_call :
    ∃ t, Program.parse .strict (.ofString "f(-(0), 7 - - 0, -(5))") = ⟨[t], none⟩ ∧ t.render = "f(-0, (7 - -0), -5)" ∧
      ∃ t', Program.parse .strict (.ofString "f(-0, (7 - -0), -5)") = ⟨[t'], none⟩ ∧
        t'.render.length + 2 = "f(-0, (7 - -0), -5)".length := by
  obtain ⟨t, ht⟩ : ∃ t, t = Statement.eval (.call 0 "f" [.neg 2 (.num 4 0),
      .binary 10 .sub (.num 8 7) (.neg 12 (.num 14 0)), .neg 17 (.num 19 5)]) := ⟨_, rfl⟩
  have hparse : Program.parse .strict (.ofString "f(-(0), 7 - - 0, -(5))") = ⟨[t], none⟩ := by
    rw [ht]
    cbv
  have hmem : t ∈ (Program.parse .strict (.ofString "f(-(0), 7 - - 0, -(5))")).statements := by
    rw [hparse]
    exact List.mem_singleton.2 rfl
  have hrender : t.render = "f(-0, (7 - -0), -5)" := by
    rw [ht]
    cbv
  have hzeros : t.negatedZeros = 2 := by
    rw [ht]
    rfl
  obtain ⟨t', hparse', hlength, -⟩ := Program.render_parse_render hmem .strict
  rw [hrender] at hparse' hlength
  rw [hzeros] at hlength
  exact ⟨t, hparse, hrender, t', hparse', hlength⟩

/-- The rendering of `- 0` is read again as a numeral, which is written otherwise. -/
theorem Program.render_negated_zero :
    ∃ t, Program.parse .strict (.ofString "- 0") = ⟨[t], none⟩ ∧ t.render = "-0" ∧
      ∃ t', Program.parse .strict (.ofString "-0") = ⟨[t'], none⟩ ∧ t'.render = "0" := by
  refine ⟨.eval (.neg 0 (.num 2 0)), ?_, ?_, .eval (.num 0 0), ?_, ?_⟩ <;> cbv

end Octal
