import Mathlib
import Octal.Proofs.Rebuild
import Octal.Proofs.Scan.Detach

/-!
# Signs and negations

It makes no difference whether a minus is the sign of a numeral or the negation of one: the scanner takes a minus as a
sign only where the parser takes an operator as a negation (`Parse.endsOperand_of_step`), and both bind tighter than
any other operator. So a parse of a text with its signs apart goes along with that of the text as it was
(`Parse.Agrees`), up to the one step in which it has yet to carry out a negation. An exception is the least value,
whose magnitude is no value.
-/

namespace Octal

open Scan Text

/-! ### Trees -/

mutual

/-- The tree without positions, where each numeral that was read at one of the offsets is a negation. -/
def Expr.unsign (signs : List Nat) : Expr → Expr
  | .num pos v =>
    if pos ∈ signs then
      match v.neg with
      | .ok w => .neg 0 (.num 0 w)
      | .error _ => .num 0 v
    else .num 0 v
  | .var _ name => .var 0 name
  | .neg _ e => .neg 0 (e.unsign signs)
  | .binary _ op l r => .binary 0 op (l.unsign signs) (r.unsign signs)
  | .cond _ c t e => .cond 0 (c.unsign signs) (t.unsign signs) (e.unsign signs)
  | .bind _ name v b => .bind 0 name (v.unsign signs) (b.unsign signs)
  | .call _ name args => .call 0 name (Expr.unsignAll signs args)

def Expr.unsignAll (signs : List Nat) : List Expr → List Expr
  | [] => []
  | e :: rest => e.unsign signs :: Expr.unsignAll signs rest

end

abbrev Statement.unsign (signs : List Nat) (s : Statement) : Statement := s.relabel (fun _ => 0) (Expr.unsign signs)

theorem Expr.unsignAll_eq (signs : List Nat) (es : List Expr) :
    Expr.unsignAll signs es = es.map (Expr.unsign signs) := by
  induction es with
  | nil => rfl
  | cons e es ih => rw [unsignAll, ih, List.map_cons]

theorem Expr.relabels_unsign (signs : List Nat) : Relabels (fun _ => 0) (unsign signs) where
  var _ _ := by rw [unsign]
  neg _ _ := by rw [unsign]
  binary _ _ _ _ := by rw [unsign]
  cond _ _ _ _ := by rw [unsign]
  bind _ _ _ _ := by rw [unsign]
  call _ _ _ := by rw [unsign, unsignAll_eq]

theorem Value.neg_of_neg {v w : Value} (h : v.neg = .ok w) : w.neg = .ok v := by
  have hv : v ≠ Int64.minValue := by
    rintro rfl
    cases h
  rw [neg, if_neg (by simpa using hv)] at h
  obtain rfl := Except.ok.inj h
  have hw : -v ≠ Int64.minValue := fun hw => hv (by rw [← Int64.neg_neg (a := v), hw]; rfl)
  rw [neg, if_neg (by simpa using hw), Int64.neg_neg]

mutual

/-- A negation of a numeral is carried out in the canonical tree. -/
theorem Expr.canonical_unsign (signs : List Nat) : (e : Expr) → (e.unsign signs).canonical = e.canonical
  | .num pos v => by
    rw [unsign]
    split
    · cases h : v.neg with
      | ok w => simp only [canonical, negate, Value.neg_of_neg h]
      | error cause => rfl
    · rfl
  | .var .. => by rw [unsign, canonical, canonical]
  | .neg _ e => by rw [unsign, canonical, canonical, e.canonical_unsign]
  | .binary _ _ l r => by rw [unsign, canonical, canonical, l.canonical_unsign, r.canonical_unsign]
  | .cond _ c t e => by
    rw [unsign, canonical, canonical, c.canonical_unsign, t.canonical_unsign, e.canonical_unsign]
  | .bind _ _ v b => by rw [unsign, canonical, canonical, v.canonical_unsign, b.canonical_unsign]
  | .call _ _ args => by rw [unsign, canonical, canonical, Expr.canonicalAll_unsignAll signs args]

theorem Expr.canonicalAll_unsignAll (signs : List Nat) : (es : List Expr) →
    Expr.canonicalAll (Expr.unsignAll signs es) = Expr.canonicalAll es
  | [] => by rw [unsignAll]
  | e :: rest => by
    rw [unsignAll, canonicalAll, canonicalAll, e.canonical_unsign, Expr.canonicalAll_unsignAll signs rest]

end

/-! ### Numerals -/

namespace Numeral
variable {ds : List Char}

theorem reads_digits (hd : ∀ d ∈ ds, isDigit d = true) (negative : Bool) :
    Reads (if negative then '-' :: ds else ds) negative ds := by
  have hblank : ∀ c ∈ (if negative then '-' :: ds else ds), isBlank c = false := by
    have hdigit : ∀ d ∈ ds, isBlank d = false := fun d hm => by
      have := isDigit_iff.1 (hd d hm)
      exact isBlank_eq_false (by omega) (by omega)
    intro c hc
    cases negative with
    | true =>
      rcases List.mem_cons.1 hc with rfl | hc
      · decide
      · exact hdigit c hc
    | false => exact hdigit c hc
  refine ⟨⟨[], [], by simp, by simp, by simp, fun c hc => hblank c (List.mem_of_head? hc),
    fun c hc => hblank c (List.mem_of_getLast? hc)⟩, fun _ hhead => ?_⟩
  exact absurd (hd '-' (List.mem_of_head? hhead)) (by decide)

/-- Both signs of a magnitude have a value or neither does, except for the magnitude of the least value. -/
theorem signed_minus {m : UInt64} (hmin : signed true m ≠ .ok Int64.minValue) :
    (∃ v w, signed true m = .ok v ∧ signed false m = .ok w ∧ v.neg = .ok w) ∨
      ∃ cause, signed true m = .error cause ∧ signed false m = .error cause := by
  have htrue : signed true m = if 0x8000000000000000 < m then .error .overflow else .ok (-m.toInt64) := rfl
  have hfalse : signed false m = if 0x7FFFFFFFFFFFFFFF < m then .error .overflow else .ok m.toInt64 := rfl
  rw [htrue] at hmin ⊢
  rw [hfalse]
  by_cases hlarge : 0x8000000000000000 < m
  · have hover : 0x7FFFFFFFFFFFFFFF < m := UInt64.lt_trans (by decide) hlarge
    exact .inr ⟨.overflow, if_pos hlarge, if_pos hover⟩
  rw [if_neg hlarge] at hmin ⊢
  have hsmall : ¬ 0x7FFFFFFFFFFFFFFF < m := by
    intro hover
    have hlo : 0x7FFFFFFFFFFFFFFF < m.toNat := UInt64.lt_iff_toNat_lt.1 hover
    have hhi : ¬ 0x8000000000000000 < m.toNat := fun hlt => hlarge (UInt64.lt_iff_toNat_lt.2 hlt)
    obtain rfl : m = 0x8000000000000000 := UInt64.toNat_inj.1 (show m.toNat = 0x8000000000000000 by omega)
    exact hmin rfl
  have hneg : Value.neg (-m.toInt64) = .ok m.toInt64 := by
    have hne : -m.toInt64 ≠ Int64.minValue := fun heq => hmin (congrArg _ heq)
    rw [Value.neg, if_neg (by simpa using hne), Int64.neg_neg]
  exact .inl ⟨-m.toInt64, m.toInt64, rfl, if_neg hsmall, hneg⟩

/-- A minus before digits changes the value and never the error, except where the least value is denoted. -/
theorem decode_minus (hne : ds ≠ []) (hd : ∀ d ∈ ds, isDigit d = true) (hmin : decode ('-' :: ds) ≠ .ok Int64.minValue) :
    (∃ v w, decode ('-' :: ds) = .ok v ∧ decode ds = .ok w ∧ v.neg = .ok w) ∨
      ∃ cause, decode ('-' :: ds) = .error cause ∧ decode ds = .error cause := by
  have htrue : decode ('-' :: ds) = decodeDigits true ds := (reads_digits hd true).decode_eq
  have hfalse : decode ds = decodeDigits false ds := (reads_digits hd false).decode_eq
  rw [htrue] at hmin ⊢
  rw [hfalse]
  unfold decodeDigits at hmin ⊢
  simp only [List.isEmpty_iff, hne, if_false] at hmin ⊢
  cases hfind : ds.find? (!isOctalDigit ·) with
  | some c => exact .inr ⟨_, rfl, rfl⟩
  | none =>
    simp only [hfind] at hmin ⊢
    cases hmagnitude : magnitude ds with
    | error cause => exact .inr ⟨cause, rfl, rfl⟩
    | ok m =>
      rw [hmagnitude] at hmin
      exact signed_minus hmin

end Numeral

/-! ### Parsing -/

theorem map_category_mapPos (f : Nat → Nat) (fault : Option Error) :
    (fault.map (Error.mapPos f)).map Error.category = fault.map Error.category := by
  cases fault with
  | none => rfl
  | some e =>
    cases e with
    | malformed pos problem => cases pos <;> rfl
    | _ => rfl

namespace Parse

/-- What was read last is an operand, a name or a list of parameters. -/
def Stage.afterOperand : Stage → Bool
  | .operator .. | .ident .. | .bindAssign .. | .defOpen .. | .defComma .. | .defAssign .. => true
  | _ => false

section
variable {t : Token} {e : Expr} {stack : List Frame}

theorem endsOperand_of_expect {kind : Kind} {next : Stage} (hnext : next.afterOperand = true → kind.endsOperand = true)
    (h : (expect kind t next).afterOperand = true) : t.kind.endsOperand = true := by
  unfold expect at h
  split at h
  · next hk =>
    rw [hk]
    exact hnext h
  · cases h

theorem endsOperand_of_operandAt (h : (operandAt stack t).afterOperand = true) : t.kind.endsOperand = true := by
  unfold operandAt at h
  split at h
  · cases h
  · next hk =>
    rw [hk]
    rfl
  · cases h
  · next hk =>
    rw [hk]
    rfl
  all_goals cases h

theorem endsOperand_of_expressionAt (h : (expressionAt stack t).afterOperand = true) : t.kind.endsOperand = true := by
  unfold expressionAt at h
  split at h
  · cases h
  · cases h
  · cases h
  · exact endsOperand_of_operandAt h

theorem endsOperand_of_statementAt (h : (statementAt t).afterOperand = true) : t.kind.endsOperand = true := by
  unfold statementAt at h
  split at h
  · cases h
  · cases h
  · exact endsOperand_of_expressionAt h

theorem not_afterOperand_endStatement (s : Statement) (problem : Lexeme → Problem) :
    (endStatement s t problem).afterOperand ≠ true := by
  unfold endStatement
  split <;> exact Bool.false_ne_true

theorem endsOperand_of_delimit (h : (delimit e t stack).afterOperand = true) : t.kind.endsOperand = true := by
  unfold delimit at h
  split at h
  · exact endsOperand_of_expect (fun _ => rfl) h
  · exact endsOperand_of_expect (fun hnext => by cases hnext) h
  · exact endsOperand_of_expect (fun hnext => by cases hnext) h
  · exact endsOperand_of_expect (fun hnext => by cases hnext) h
  · split at h
    · cases h
    · exact endsOperand_of_expect (fun _ => rfl) h
  · exact absurd h (not_afterOperand_endStatement _ _)
  · exact absurd h (not_afterOperand_endStatement _ _)

theorem endsOperand_of_operatorAt (h : (operatorAt e stack t).afterOperand = true) : t.kind.endsOperand = true := by
  unfold operatorAt at h
  split at h
  · simp only at h
    split at h
    · exact endsOperand_of_delimit h
    · cases h
  · split at h
    · cases h
    · exact endsOperand_of_delimit h

/-- The parser is after an operand only where the scanner is. -/
theorem endsOperand_of_step {stage : Stage} (h : (stage.step t).afterOperand = true) : t.kind.endsOperand = true := by
  cases stage with
  | start | separated => exact endsOperand_of_statementAt h
  | expression stack => exact endsOperand_of_expressionAt h
  | operand stack => exact endsOperand_of_operandAt h
  | operator e stack => exact endsOperand_of_operatorAt h
  | ident pos name stack =>
    rw [Stage.step] at h
    split at h
    · cases h
    · exact endsOperand_of_operatorAt h
  | arguments pos name stack =>
    rw [Stage.step] at h
    split at h
    · next hk =>
      rw [hk]
      rfl
    · exact endsOperand_of_expressionAt h
  | bindName | defName | defParam => exact endsOperand_of_expect (fun _ => rfl) h
  | bindAssign | defOpen | defAssign => exact endsOperand_of_expect (fun hnext => by cases hnext) h
  | defParams pos name =>
    rw [Stage.step] at h
    split at h
    · next hk =>
      rw [hk]
      rfl
    · exact endsOperand_of_expect (fun _ => rfl) h
  | defComma pos name params param paramPos =>
    rw [Stage.step] at h
    split at h
    · cases h
    · split at h
      · cases h
      · exact endsOperand_of_expect (fun _ => rfl) h
  | ended | failed => cases h

/-- A negation is carried out as soon as its operand has been read, whatever comes next. -/
theorem operatorAt_neg (pos : Nat) : operatorAt e (.neg pos :: stack) t = operatorAt (.neg pos e) stack t := rfl

end

/-- The second parse is the first with signs apart, or has yet to carry out the last negation, or both have failed in
the same way. -/
inductive Agrees (signs : List Nat) : Stage → Stage → Prop
  | same (stage : Stage) : Agrees signs stage (stage.relabel (fun _ => 0) (Expr.unsign signs))
  | behind {e e' : Expr} (stack : List Frame) (h : e.unsign signs = .neg 0 e') : Agrees signs (.operator e stack)
      (.operator e' (.neg 0 :: stack.map (Frame.relabel (fun _ => 0) (Expr.unsign signs))))
  | failed {cause cause' : Error} (h : cause'.category = cause.category) : Agrees signs (.failed cause) (.failed cause')

/-- The token is a numeral with a sign, and `number` is its text without the sign. -/
structure Splits (signs : List Nat) (t : Token) (number : String) : Prop where
  kind : t.kind = .number
  mem : t.pos ∈ signs
  decode : (∃ v w, Numeral.decode t.text.toList = .ok v ∧ Numeral.decode number.toList = .ok w ∧ v.neg = .ok w) ∨
    ∃ cause, Numeral.decode t.text.toList = .error cause ∧ Numeral.decode number.toList = .error cause

section
variable {signs : List Nat} {t : Token} {number : String}

/-- Where an operand can stand, a signed numeral is read like a negation. -/
theorem Splits.operandAt (h : Splits signs t number) (stack : List Frame) :
    Agrees signs (Parse.operandAt stack t) (Parse.operandAt
      (.neg 0 :: stack.map (Frame.relabel (fun _ => 0) (Expr.unsign signs))) ⟨⟨.number, number⟩, 0⟩) := by
  simp only [Parse.operandAt, h.kind]
  rcases h.decode with ⟨v, w, hv, hw, hneg⟩ | ⟨cause, hv, hw⟩
  · rw [hv, hw]
    refine .behind stack ?_
    rw [Expr.unsign, if_pos h.mem, hneg]
  · rw [hv, hw]
    exact .failed rfl

/-- Where no operand can stand, neither a numeral nor a minus is read. -/
theorem Splits.step (h : Splits signs t number) {stage : Stage} (ha : stage.afterOperand = false) :
    Agrees signs (stage.step t)
      (((stage.relabel (fun _ => 0) (Expr.unsign signs)).step ⟨⟨.minus, "-"⟩, 0⟩).step ⟨⟨.number, number⟩, 0⟩) := by
  have hexpression (stack : List Frame) : expressionAt stack t = Parse.operandAt stack t := by
    simp only [expressionAt, h.kind]
  have hstatement : statementAt t = Parse.operandAt [] t := by
    simp only [statementAt, h.kind, hexpression]
  have hexpect {kind : Kind} (hk : .number ≠ kind) (next : Stage) :
      expect kind t next = .failed (.malformed (some t.pos) (.expected kind t.toLexeme)) :=
    if_neg (by rwa [h.kind])
  cases stage with
  | start | separated =>
    rw [Stage.step, hstatement]
    exact h.operandAt []
  | expression stack =>
    rw [Stage.step, hexpression]
    exact h.operandAt stack
  | operand stack => exact h.operandAt stack
  | arguments pos name stack =>
    rw [Stage.step, if_neg (by rw [h.kind]; decide), hexpression]
    exact h.operandAt (.callArg pos name [] :: stack)
  | bindName | defName | defParam =>
    rw [Stage.step, hexpect (by decide)]
    exact .failed rfl
  | defParams =>
    rw [Stage.step, if_neg (by rw [h.kind]; decide), hexpect (by decide)]
    exact .failed rfl
  | ended | failed => exact .same _
  | operator | ident | bindAssign | defOpen | defComma | defAssign => cases ha

end

namespace State

/-- The second parse has handed out the statements of the first with signs apart, and agrees on the one being read. -/
structure Agrees (signs : List Nat) (s s' : State) : Prop where
  statements : s'.statements = s.statements.map (Statement.unsign signs)
  stage : Parse.Agrees signs s.stage s'.stage

namespace Agrees
variable {signs : List Nat} {s s' : State} {t : Token}

theorem eq_relabel (statements : List Statement) (stage : Stage) :
    Agrees signs ⟨statements, stage⟩ (relabel (fun _ => 0) (Expr.unsign signs) ⟨statements, stage⟩) := ⟨rfl, .same stage⟩

theorem feed (h : Agrees signs s s') (ht : t.Kept (fun _ => 0) (Expr.unsign signs)) :
    Agrees signs (s.feed (.token t)) (s'.feed (.token (t.mapPos fun _ => 0))) := by
  obtain ⟨statements, stage⟩ := s
  obtain ⟨statements', stage'⟩ := s'
  obtain ⟨rfl, hstage⟩ := h
  cases hstage with
  | same =>
    have hitem : ∀ u, Item.token t = .token u → u.Kept (fun _ => 0) (Expr.unsign signs) :=
      fun u hu => Item.token.inj hu ▸ ht
    have hfeed := feed_relabel (Expr.relabels_unsign signs) hitem ⟨statements, stage⟩
    exact hfeed ▸ eq_relabel _ _
  | @behind e e' stack he =>
    refine ⟨rfl, ?_⟩
    show Parse.Agrees signs (operatorAt e stack t) (operatorAt e' (.neg 0 :: _) (t.mapPos fun _ => 0))
    rw [operatorAt_neg, ← he, operatorAt_relabel t e stack (Expr.relabels_unsign signs)]
    exact .same _
  | failed hc => exact ⟨rfl, .failed hc⟩

theorem feed_splits (h : Agrees signs s s') (ha : s.stage.afterOperand = false) {number : String}
    (ht : Splits signs t number) :
    Agrees signs (s.feed (.token t)) ((s'.feed (.token ⟨⟨.minus, "-"⟩, 0⟩)).feed (.token ⟨⟨.number, number⟩, 0⟩)) := by
  obtain ⟨statements, stage⟩ := s
  obtain ⟨statements', stage'⟩ := s'
  obtain ⟨rfl, hstage⟩ := h
  cases hstage with
  | same =>
    have hstep := ht.step ha
    cases stage with
    | operator | ident | bindAssign | defOpen | defComma | defAssign => cases ha
    | _ => exact ⟨rfl, hstep⟩
  | behind => cases ha
  | failed hc => exact ⟨rfl, .failed hc⟩

theorem program (h : Agrees signs s s') :
    s'.program.statements = s.program.statements.map (Statement.unsign signs) ∧
      s'.program.fault.map Error.category = s.program.fault.map Error.category := by
  obtain ⟨statements, stage⟩ := s
  obtain ⟨statements', stage'⟩ := s'
  obtain ⟨rfl, hstage⟩ := h
  cases hstage with
  | same =>
    show (relabel (fun _ => 0) (Expr.unsign signs) ⟨statements, stage⟩).program.statements = _ ∧
      (relabel (fun _ => 0) (Expr.unsign signs) ⟨statements, stage⟩).program.fault.map Error.category = _
    rw [program_relabel]
    exact ⟨rfl, map_category_mapPos _ _⟩
  | behind => exact ⟨List.map_reverse.symm, rfl⟩
  | failed hc => exact ⟨List.map_reverse.symm, congrArg some hc⟩

end Agrees

end State

end Parse

namespace Token

/-- Of tokens at places of their own, those at the signs are the signed ones. -/
theorem pos_mem_signs_iff {ts : List Token} (hts : ts.Pairwise fun t u => t.pos < u.pos ∧ t.stop ≤ u.pos) {t : Token}
    (ht : t ∈ ts) : t.pos ∈ signs ts ↔ t.signed = true := by
  have hnodup : (ts.map Token.pos).Nodup := List.pairwise_map.2 (hts.imp fun h => h.1.ne)
  constructor
  · intro hmem
    obtain ⟨u, hu, hpos⟩ := List.mem_map.1 hmem
    obtain ⟨hu, hsigned⟩ := List.mem_filter.1 hu
    rwa [← List.inj_on_of_nodup_map hnodup hu ht hpos]
  · intro hsigned
    exact List.mem_map_of_mem (List.mem_filter.2 ⟨ht, hsigned⟩)

end Token

namespace Scan.Segmented
open Parse
variable {lexing : Lexing} {a : Bool} {pos : Nat} {runes : List Rune} {ts : List Token} {signs : List Nat}

theorem splits {l : Lexeme} (hl : l.Fits) (hsigned : Token.signed ⟨l, pos⟩ = true) (hmem : pos ∈ signs)
    (hmin : Numeral.decode l.text.toList ≠ .ok Int64.minValue) :
    Splits signs ⟨l, pos⟩ (.ofList l.text.toList.tail) := by
  obtain ⟨text, ds, rfl, hds, hne, hdigits⟩ := hl.exists_digits hsigned
  refine ⟨rfl, hmem, ?_⟩
  rw [hds] at hmin
  rw [String.toList_ofList, hds]
  exact Numeral.decode_minus hne hdigits hmin

/-- The parses of tokens with and without their signs apart go along with each other, since the scanner has taken a
minus as a sign only where the parser is not after an operand. -/
theorem agrees (h : Segmented lexing a pos runes ts) (hsigns : ∀ t ∈ ts, t.pos ∈ signs ↔ t.signed = true)
    (hmin : ∀ t ∈ ts, t.signed = true → Numeral.decode t.text.toList ≠ .ok Int64.minValue) {s s' : Parse.State}
    (hs : Parse.State.Agrees signs s s') (ha : s.stage.afterOperand = true → a = true) :
    Parse.State.Agrees signs ((ts.map Item.token).foldl Parse.State.feed s)
      (((ts.flatMap Token.unsign).map fun l => Item.token ⟨l, 0⟩).foldl Parse.State.feed s') := by
  induction h generalizing s s' with
  | done => exact hs
  | skip _ _ ih => exact ih hsigns hmin hs ha
  | @token a pos l held rest ts hl htext he _ ih =>
    obtain ⟨hsign, hsigns⟩ := List.forall_mem_cons.1 hsigns
    obtain ⟨hmin₁, hmin⟩ := List.forall_mem_cons.1 hmin
    have hafter : (s.feed (.token ⟨l, pos⟩)).stage.afterOperand = true → l.kind.endsOperand = true := by
      intro hafter
      rw [Parse.State.stage_feed, Parse.State.receive_token] at hafter
      exact endsOperand_of_step hafter
    rw [List.map_cons, List.foldl_cons, List.flatMap_cons, List.map_append, List.foldl_append]
    refine ih hsigns hmin ?_ hafter
    by_cases hsigned : Token.signed ⟨l, pos⟩ = true
    · have hfalse : s.stage.afterOperand = false := by
        obtain ⟨text, ds, rfl, hds, -⟩ := hl.exists_digits hsigned
        obtain ⟨-, rfl⟩ := (he.sign (congrArg List.head? hds)).1 rfl
        exact Bool.eq_false_of_not_eq_true fun h => Bool.false_ne_true (ha h)
      rw [Token.unsign, if_pos hsigned]
      exact hs.feed_splits hfalse (splits hl hsigned (hsign.2 hsigned) (hmin₁ hsigned))
    · rw [Token.unsign, if_neg hsigned]
      refine hs.feed fun _ v => ?_
      rw [Expr.unsign, if_neg (mt hsign.1 hsigned)]

end Scan.Segmented

/-- The statements of a text with its signs apart are those of the text with negations for its signed numerals, and the
faults of the two, if any, are of the same kind. -/
theorem Program.parse_spaceAfter {lexing : Lexing} {text : Bytes} {ts : List Token}
    (h : Segmented lexing false 0 (Rune.decode text) ts)
    (hmin : ∀ t ∈ ts, t.signed = true → Numeral.decode t.text.toList ≠ .ok Int64.minValue) :
    (parse lexing (.complete (text.spaceAfter (Token.signs ts)))).statements.map Statement.erase =
        (parse lexing (.complete text)).statements.map (Statement.unsign (Token.signs ts)) ∧
      (parse lexing (.complete (text.spaceAfter (Token.signs ts)))).fault.map Error.category =
        (parse lexing (.complete text)).fault.map Error.category := by
  have htokens : parse lexing (.complete text) = ofItems ((ts ++ [Token.ending text.length]).map .token) := by
    rw [parse, Source.scan_complete, h.run_eq, Rune.encode_decode, Nat.zero_add]
  have herase : (parse lexing (.complete (text.spaceAfter (Token.signs ts)))).mapPos (fun _ => 0) =
      ofItems (((ts ++ [Token.ending text.length]).flatMap Token.unsign).map fun l => .token ⟨l, 0⟩) := by
    obtain ⟨all, hall, hlexemes⟩ := Source.exists_scan_spaceAfter h
    rw [parse, hall, ← ofItems_mapPos, ← hlexemes, List.map_map, List.map_map]
    rfl
  have hinitial : Parse.State.Agrees (Token.signs ts) .initial .initial := ⟨rfl, .same .start⟩
  have hagrees := h.agrees (fun t => Token.pos_mem_signs_iff (h.ordered (Rune.plain_decode text))) hmin hinitial
    fun hstart => by cases hstart
  -- The end of the text is one more token that has no sign.
  obtain ⟨hstatements, hfault⟩ := (hagrees.feed (t := .ending text.length) fun heof => by cases heof).program
  rw [ofItems, List.flatMap_append, List.map_append, List.foldl_append] at herase
  rw [ofItems, List.map_append, List.foldl_append] at htokens
  rw [htokens, ← map_category_mapPos fun _ => 0]
  exact ⟨(congrArg Program.statements herase).trans hstatements,
    (congrArg (fun p => p.fault.map Error.category) herase).trans hfault⟩

/-! ### Evaluating -/

theorem Statement.canonical_erase (s : Statement) : s.erase.canonical = s.canonical := by
  cases s with
  | eval e => exact congrArg Statement.eval (e.canonical_mapPos _)
  | define pos fn => exact congrArg (fun body => Statement.define 0 { fn with body }) (fn.body.canonical_mapPos _)

theorem Statement.canonical_unsign (signs : List Nat) (s : Statement) : (s.unsign signs).canonical = s.canonical := by
  cases s with
  | eval e => exact congrArg Statement.eval (e.canonical_unsign signs)
  | define pos fn => exact congrArg (fun body => Statement.define 0 { fn with body }) (fn.body.canonical_unsign signs)

theorem faulted_category {fault fault' : Option Error} (h : fault'.map Error.category = fault.map Error.category)
    (r : Except Error Value) :
    (faulted fault' r).mapError Error.category = (faulted fault r).mapError Error.category := by
  cases r with
  | error e => rfl
  | ok v =>
    cases fault <;> cases fault'
    · rfl
    · cases h
    · cases h
    · exact congrArg Except.error (Option.some.inj h)

section
variable {p p' : Program} (hstatements : p'.statements.map Statement.canonical = p.statements.map Statement.canonical)
  (hfault : p'.fault.map Error.category = p.fault.map Error.category)
include hstatements hfault

theorem Program.ending_category : p'.ending.map Error.category = p.ending.map Error.category := by
  obtain ⟨statements, fault⟩ := p
  obtain ⟨statements', fault'⟩ := p'
  cases statements with
  | nil =>
    obtain rfl := List.map_eq_nil_iff.1 hstatements
    cases fault with
    | none =>
      obtain rfl : fault' = none := Option.map_eq_none_iff.1 hfault
      rfl
    | some e =>
      obtain ⟨e', rfl, -⟩ := Option.map_eq_some_iff.1 hfault
      exact hfault
  | cons s statements =>
    obtain ⟨s', statements', rfl, -⟩ := List.map_eq_cons_iff.1 hstatements
    exact hfault

/-- Programs with the same canonical statements and faults of the same kind do the same. -/
theorem Session.run_of_canonical (s : Session) :
    (s.run p').result.mapError Error.category = (s.run p).result.mapError Error.category ∧
      (s.run p').registry.map Function.canonical = (s.run p).registry.map Function.canonical := by
  have hperform := perform_canonical s.settings s.registry 0 p.statements
  have hperform' := perform_canonical s.settings s.registry 0 p'.statements
  rw [hstatements] at hperform'
  obtain ⟨hresult, hregistry⟩ := Prod.mk.inj (hperform'.symm.trans hperform)
  constructor
  · rw [result_run_eq, result_run_eq, hresult]
    exact faulted_category (Program.ending_category hstatements hfault) _
  · rw [registry_run, registry_run]
    exact hregistry

end

/-- A space after every sign of a text makes negations of its signed numerals and changes nothing else, as long as none
of them denotes the least value. -/
theorem Session.evaluate_spaceAfter {lexing : Lexing} {text : Bytes} {tokens : List Token}
    (hscan : (Source.complete text).scan lexing = tokens.map .token)
    (hmin : ∀ t ∈ tokens, t.signed = true → Numeral.decode t.text.toList ≠ .ok Int64.minValue) :
    ((Program.parse lexing (.complete text)).fault = none ↔
      (Program.parse lexing (.complete (text.spaceAfter (Token.signs tokens)))).fault = none) ∧
    (Program.parse lexing (.complete (text.spaceAfter (Token.signs tokens)))).statements.map Statement.erase =
      (Program.parse lexing (.complete text)).statements.map (Statement.unsign (Token.signs tokens)) ∧
    ∀ s : Session, s.settings.lexing = lexing →
      (s.evaluate (.complete (text.spaceAfter (Token.signs tokens)))).mapError Error.category =
        (s.evaluate (.complete text)).mapError Error.category ∧
      ∀ settings sources,
        answers ⟨settings, (s.after (.complete (text.spaceAfter (Token.signs tokens)))).registry⟩ sources =
          answers ⟨settings, (s.after (.complete text)).registry⟩ sources := by
  obtain ⟨ts, rfl, h⟩ := Source.exists_segmented hscan
  rw [Token.signs_append_ending]
  obtain ⟨hstatements, hfault⟩ := Program.parse_spaceAfter h fun t ht => hmin t (List.mem_append_left _ ht)
  have hcanonical := congrArg (List.map Statement.canonical) hstatements
  simp only [List.map_map, Function.comp_def, Statement.canonical_erase, Statement.canonical_unsign] at hcanonical
  refine ⟨?_, hstatements, ?_⟩
  · rw [← Option.map_eq_none_iff (f := Error.category), ← hfault, Option.map_eq_none_iff]
  · rintro s rfl
    obtain ⟨hresult, hregistry⟩ := s.run_of_canonical hcanonical hfault
    refine ⟨?_, fun settings sources => ?_⟩
    · rw [evaluate, evaluate, ← mapError_map, ← mapError_map]
      exact congrArg _ hresult
    · have halike : Alike ⟨settings, (s.after (.complete (text.spaceAfter (Token.signs ts)))).registry⟩
          ⟨settings, (s.after (.complete text)).registry⟩ := ⟨rfl, hregistry⟩
      exact halike.answers sources

/-- Signs in an argument, before a power, and after an operator that follows a name. The definition is another tree. -/
theorem Session.evaluate_spaceAfter_power :
    (∀ t ∈ (Source.ofString "DEF f(n)=n--3;7*-2^f(-1)").tokens .strict, t.signed = true →
      Numeral.decode t.text.toList ≠ .ok Int64.minValue) ∧
    (Session.new .default).evaluate (.ofString "DEF f(n)=n-- 3;7*- 2^f(- 1)") = .ok "34" ∧
    ∀ settings sources,
      answers ⟨settings, ((Session.new .default).after (.ofString "DEF f(n)=n-- 3;7*- 2^f(- 1)")).registry⟩ sources =
        answers ⟨settings, ((Session.new .default).after (.ofString "DEF f(n)=n--3;7*-2^f(-1)")).registry⟩ sources := by
  have hscan : (Source.complete (Bytes.ofString "DEF f(n)=n--3;7*-2^f(-1)")).scan .strict =
      ((Source.ofString "DEF f(n)=n--3;7*-2^f(-1)").tokens .strict).map .token := by decide +kernel
  have hmin : ∀ t ∈ (Source.ofString "DEF f(n)=n--3;7*-2^f(-1)").tokens .strict, t.signed = true →
      Numeral.decode t.text.toList ≠ .ok Int64.minValue := by decide +kernel
  have htext : Bytes.spaceAfter (Token.signs ((Source.ofString "DEF f(n)=n--3;7*-2^f(-1)").tokens .strict))
      (Bytes.ofString "DEF f(n)=n--3;7*-2^f(-1)") = Bytes.ofString "DEF f(n)=n-- 3;7*- 2^f(- 1)" := by decide +kernel
  have hvalue : (Session.new .default).evaluate (.complete (Bytes.ofString "DEF f(n)=n--3;7*-2^f(-1)")) = .ok "34" := by
    cbv
  obtain ⟨-, -, hsession⟩ := Session.evaluate_spaceAfter hscan hmin
  obtain ⟨hresult, hanswers⟩ := hsession (.new .default) rfl
  rw [htext] at hanswers
  rw [htext, hvalue] at hresult
  exact ⟨hmin, eq_ok_of_mapError hresult, hanswers⟩

end Octal
