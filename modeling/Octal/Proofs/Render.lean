import Octal.Proofs.Parse
import Octal.Proofs.Scan.Lex

/-!
# Rendered trees

Reading what `render` writes gives the tree back, but for positions and for one thing: a minus right
before a digit is the sign of a numeral, so the negation of a value that has no sign comes back as a
value that has one (`Expr.fold`).

`Prints l text e` says that `text` scans to the tokens of a phrase of level `l` that denotes `e`, wherever
an operand may stand and no word goes on after it. There is one lemma for each way of writing a
tree, and the parentheses that `render` adds are the ones that keep the levels apart.
-/

namespace Octal

open Grammar Parse Scan Text

mutual

/-- The tree where each negation of a numeral without a sign has become a numeral with one. -/
def Expr.fold : Expr → Expr
  | .neg pos (.num p v) => if 0 ≤ v then .num pos (-v) else .neg pos (.num p v)
  | .neg pos e => .neg pos e.fold
  | .num pos v => .num pos v
  | .var pos name => .var pos name
  | .binary pos op l r => .binary pos op l.fold r.fold
  | .cond pos c t e => .cond pos c.fold t.fold e.fold
  | .bind pos name v b => .bind pos name v.fold b.fold
  | .call pos name args => .call pos name (Expr.foldAll args)

def Expr.foldAll : List Expr → List Expr
  | [] => []
  | e :: rest => e.fold :: Expr.foldAll rest

end

def Statement.fold : Statement → Statement
  | .eval e => .eval e.fold
  | .define pos f => .define pos { f with body := f.body.fold }

/-- A word that is no keyword. -/
def IsIdent (name : String) : Prop := IsWord name.toList ∧ Kind.ofWord name = .ident

mutual

/-- Every name in the tree is an identifier. -/
def Expr.Named : Expr → Prop
  | .num _ _ => True
  | .var _ name => IsIdent name
  | .neg _ e => e.Named
  | .binary _ _ l r => l.Named ∧ r.Named
  | .cond _ c t e => c.Named ∧ t.Named ∧ e.Named
  | .bind _ name v b => IsIdent name ∧ v.Named ∧ b.Named
  | .call _ name args => IsIdent name ∧ Expr.NamedAll args

def Expr.NamedAll : List Expr → Prop
  | [] => True
  | e :: rest => e.Named ∧ Expr.NamedAll rest

end

namespace Parse

@[simp] theorem legible_nil : Legible [] := by simp [Legible]

@[simp] theorem legible_cons {t : Token} {ts : List Token} :
    Legible (t :: ts) ↔ (t.kind = .compare → t.operator?.isSome) ∧ Legible ts :=
  List.forall_mem_cons

@[simp] theorem legible_append {ts ts' : List Token} :
    Legible (ts ++ ts') ↔ Legible ts ∧ Legible ts' :=
  List.forall_mem_append

end Parse

/-- The terminal written `text`, without a position. -/
def terminal (kind : Kind) (text : String) : Terminal [kind] := ⟨⟨⟨kind, text⟩, 0⟩, by simp⟩

/-- `text` scans to `ts` as an operand. -/
def Spells (text : String) (ts : List Token) : Prop :=
  ∀ rest, Boundary rest →
    lex false .blank (text.toList ++ rest) = ts.map .token ++ lex true .blank rest

def Prints (l : Level) (text : String) (e : Expr) : Prop :=
  ∃ ts, Spells text ts ∧ Legible ts ∧ Denotes l ts e

theorem Scan.lex_operator (op : Operator) (rest : List Char) :
    lex true .blank (op.symbol.toList ++ ' ' :: rest) =
      .token ⟨⟨op.kind, op.symbol⟩, 0⟩ :: lex false .blank rest := by
  cases op <;> rfl

theorem Scan.lex_ident {a : Bool} {name : String} {rest : List Char} (h : IsIdent name)
    (hr : Boundary rest) :
    lex a .blank (name.toList ++ rest) = .token ⟨⟨.ident, name⟩, 0⟩ :: lex true .blank rest := by
  rw [lex_isWord h.1 hr, h.2]
  rfl

/-! ### Operands without parts -/

section
variable {ds : List Char}

theorem spells_digits (hne : ds ≠ []) (hd : ∀ d ∈ ds, isDigit d = true) :
    Spells (String.ofList ds) [⟨⟨.number, String.ofList ds⟩, 0⟩] := by
  intro rest hr
  obtain ⟨d, ds, rfl⟩ := List.exists_cons_of_ne_nil hne
  rw [String.toList_ofList, List.cons_append, lex_blank_cons, begin_digit (hd d (by simp)),
    lex_digits fun x hx => hd x (by simp [hx]), lex_piece fun c hc => ?_]
  · simp [Piece.items, Piece.lexeme?, Piece.endsOperand, Kind.endsOperand]
  · simp [Piece.extend?, hr.not_isDigit c hc]

theorem spells_minus_digits (hne : ds ≠ []) (hd : ∀ d ∈ ds, isDigit d = true) :
    Spells (String.ofList ('-' :: ds)) [⟨⟨.number, String.ofList ('-' :: ds)⟩, 0⟩] := by
  intro rest hr
  obtain ⟨d, ds, rfl⟩ := List.exists_cons_of_ne_nil hne
  have hsign : Piece.sign.extend? d = some (.digits [d, '-']) := if_pos (hd d (by simp))
  rw [String.toList_ofList, List.cons_append, lex_blank_cons]
  show lex false .sign (d :: (ds ++ rest)) = _
  rw [lex, hsign]
  simp only
  rw [lex_digits fun x hx => hd x (by simp [hx]), lex_piece fun c hc => ?_]
  · simp [Piece.items, Piece.lexeme?, Piece.endsOperand, Kind.endsOperand]
  · simp [Piece.extend?, hr.not_isDigit c hc]

end

namespace Prints
variable {l l' : Level} {text : String} {e : Expr}

theorem mono (h : Prints l text e) (hl : l ≤ l') : Prints l' text e := by
  obtain ⟨ts, h1, h2, h3⟩ := h
  exact ⟨ts, h1, h2, h3.mono hl⟩

theorem numeral {v : Value} (h : Spells text [⟨⟨.number, text⟩, 0⟩])
    (hv : Numeral.decode text.toList = .ok v) : Prints .primary text (.num 0 v) := by
  refine ⟨_, h, by simp, .numeral (terminal .number text), rfl, ?_, by simp [terminal, hv]⟩
  simp [terminal, valueOf, hv]

theorem isDigit_of_mem {n : Nat} {c : Char} (h : c ∈ Nat.toDigits 8 n) : isDigit c = true := by
  have := Numeral.isOctalDigit_iff.1 (Numeral.isOctalDigit_of_mem h)
  exact isDigit_iff.2 ⟨by omega, by omega⟩

theorem num (v : Value) : Prints .primary (Numeral.encode v) (.num 0 v) := by
  refine numeral ?_ (Numeral.decode_encode v)
  rw [← String.ofList_toList (s := Numeral.encode v)]
  by_cases h : v < 0
  · rw [Numeral.toList_encode_of_neg h]
    exact spells_minus_digits Nat.toDigits_ne_nil fun d => isDigit_of_mem
  · rw [Numeral.toList_encode_of_nonneg (Int64.not_lt.1 h)]
    exact spells_digits Nat.toDigits_ne_nil fun d => isDigit_of_mem

/-- A minus right before a numeral. -/
theorem negNum {v : Value} (h : 0 ≤ v) : Prints .primary ("-" ++ Numeral.encode v) (.num 0 (-v)) := by
  have htext : ("-" ++ Numeral.encode v).toList = '-' :: (Numeral.encode v).toList := by simp
  refine numeral ?_ (by rw [htext]; exact Numeral.decode_minus_encode h)
  rw [← String.ofList_toList (s := "-" ++ Numeral.encode v), htext, Numeral.toList_encode_of_nonneg h]
  exact spells_minus_digits Nat.toDigits_ne_nil fun d => isDigit_of_mem

theorem var {name : String} (h : IsIdent name) : Prints .primary name (.var 0 name) := by
  refine ⟨[⟨⟨.ident, name⟩, 0⟩], fun rest hr => ?_, by simp, ?_⟩
  · exact lex_ident h hr
  · exact ⟨.ident (terminal .ident name), rfl, rfl, by simp⟩

/-- A minus before anything but a digit. -/
theorem neg {c : Char} {cs : List Char} (h : Prints .unary text e) (ht : text.toList = c :: cs)
    (hc : isDigit c = false) : Prints .unary ("-" ++ text) (.neg 0 e) := by
  obtain ⟨ts, h1, h2, h3⟩ := h
  refine ⟨⟨⟨.minus, "-"⟩, 0⟩ :: ts, fun rest hr => ?_, by simp [h2], h3.neg (terminal .minus "-")⟩
  have h1 := h1 rest hr
  rw [ht, List.cons_append] at h1
  have htext : ("-" ++ text).toList ++ rest = '-' :: c :: (cs ++ rest) := by simp [ht]
  rw [htext, lex_minus hc, h1]
  rfl

/-! ### Operands with parts -/

theorem group (h : Prints .expression text e) : Prints .primary ("(" ++ text ++ ")") e := by
  obtain ⟨ts, h1, h2, p, rfl, rfl, hp⟩ := h
  refine ⟨⟨⟨.openParen, "("⟩, 0⟩ :: (p.tokens ++ [⟨⟨.closeParen, ")"⟩, 0⟩]), fun rest hr => ?_, ?_, ?_⟩
  · have htext : ("(" ++ text ++ ")").toList ++ rest = '(' :: (text.toList ++ ')' :: rest) := by simp
    rw [htext, lex_openParen, h1 _ (boundary_cons (by decide) _), lex_closeParen]
    simp
  · simp [h2]
  · exact ⟨.group (terminal .openParen "(") p (terminal .closeParen ")"), rfl, rfl, hp⟩

theorem binary {left right : String} {x y : Expr} (op : Operator) (hl : Prints .unary left x)
    (hr : Prints .unary right y) :
    Prints .primary ("(" ++ left ++ " " ++ op.symbol ++ " " ++ right ++ ")") (.binary 0 op x y) := by
  obtain ⟨ls, hl1, hl2, hl3⟩ := hl
  obtain ⟨rs, hr1, hr2, hr3⟩ := hr
  have hop : (⟨⟨op.kind, op.symbol⟩, 0⟩ : Token).operator? = some op := by cases op <;> rfl
  have h : Prints op.level (left ++ " " ++ op.symbol ++ " " ++ right) (.binary 0 op x y) := by
    refine ⟨ls ++ ⟨⟨op.kind, op.symbol⟩, 0⟩ :: rs, fun rest hb => ?_, ?_, ?_⟩
    · have htext : (left ++ " " ++ op.symbol ++ " " ++ right).toList ++ rest =
          left.toList ++ ' ' :: (op.symbol.toList ++ ' ' :: (right.toList ++ rest)) := by simp
      rw [htext, hl1 _ (boundary_cons (by decide) _), lex_space, lex_operator, hr1 rest hb]
      simp
    · exact legible_append.2 ⟨hl2, legible_cons.2 ⟨fun _ => by rw [hop]; rfl, hr2⟩⟩
    · exact Denotes.binary hop (hl3.mono op.unary_le_leftLevel) (hr3.mono op.unary_le_rightLevel)
  have := (h.mono (Level.le_expression _)).group
  simpa [String.append_assoc] using this

theorem cond {test whenTrue whenFalse : String} {x y z : Expr} (hc : Prints .expression test x)
    (ht : Prints .expression whenTrue y) (he : Prints .expression whenFalse z) :
    Prints .expression ("IF " ++ test ++ " THEN " ++ whenTrue ++ " ELSE " ++ whenFalse) (.cond 0 x y z) := by
  obtain ⟨cs, hc1, hc2, p, rfl, rfl, hp⟩ := hc
  obtain ⟨ts, ht1, ht2, q, rfl, rfl, hq⟩ := ht
  obtain ⟨es, he1, he2, r, rfl, rfl, hr⟩ := he
  refine ⟨⟨⟨.kwIf, "IF"⟩, 0⟩ :: (p.tokens ++ ⟨⟨.kwThen, "THEN"⟩, 0⟩ :: (q.tokens ++
    ⟨⟨.kwElse, "ELSE"⟩, 0⟩ :: r.tokens)), fun rest hb => ?_, ?_, ?_⟩
  · have htext : ("IF " ++ test ++ " THEN " ++ whenTrue ++ " ELSE " ++ whenFalse).toList ++ rest =
        "IF".toList ++ ' ' :: (test.toList ++ ' ' :: ("THEN".toList ++ ' ' :: (whenTrue.toList ++
          ' ' :: ("ELSE".toList ++ ' ' :: (whenFalse.toList ++ rest))))) := by simp
    have hb' (cs : List Char) : Boundary (' ' :: cs) := boundary_cons (by decide) cs
    rw [htext, lex_keyword "IF" .kwIf (by decide), hc1 _ (hb' _), lex_space,
      lex_keyword "THEN" .kwThen (by decide), ht1 _ (hb' _), lex_space,
      lex_keyword "ELSE" .kwElse (by decide), he1 _ hb]
    simp
  · simp [hc2, ht2, he2]
  · exact ⟨.ifElse (terminal .kwIf "IF") p (terminal .kwThen "THEN") q (terminal .kwElse "ELSE") r, rfl,
      rfl, hp, hq, hr⟩

theorem bind {name value body : String} {x y : Expr} (hn : IsIdent name)
    (hv : Prints .expression value x) (hb : Prints .expression body y) :
    Prints .expression ("LET " ++ name ++ " = " ++ value ++ " IN " ++ body) (.bind 0 name x y) := by
  obtain ⟨vs, hv1, hv2, p, rfl, rfl, hp⟩ := hv
  obtain ⟨bs, hb1, hb2, q, rfl, rfl, hq⟩ := hb
  refine ⟨⟨⟨.kwLet, "LET"⟩, 0⟩ :: ⟨⟨.ident, name⟩, 0⟩ :: ⟨⟨.assign, "="⟩, 0⟩ :: (p.tokens ++
    ⟨⟨.kwIn, "IN"⟩, 0⟩ :: q.tokens), fun rest hr => ?_, ?_, ?_⟩
  · have htext : ("LET " ++ name ++ " = " ++ value ++ " IN " ++ body).toList ++ rest =
        "LET".toList ++ ' ' :: (name.toList ++ ' ' :: '=' :: ' ' :: (value.toList ++
          ' ' :: ("IN".toList ++ ' ' :: (body.toList ++ rest)))) := by simp
    have hb' (cs : List Char) : Boundary (' ' :: cs) := boundary_cons (by decide) cs
    rw [htext, lex_keyword "LET" .kwLet (by decide), lex_ident hn (hb' _), lex_space, lex_assign,
      hv1 _ (hb' _), lex_space, lex_keyword "IN" .kwIn (by decide), hb1 _ hr]
    simp
  · simp [hv2, hb2]
  · exact ⟨.letIn (terminal .kwLet "LET") (terminal .ident name) (terminal .assign "=") p
      (terminal .kwIn "IN") q, rfl, rfl, hp, hq⟩

end Prints

/-- `texts` with commas between them are the arguments `es` of a call. -/
def PrintsArgs (texts : List String) (es : List Expr) : Prop :=
  ∃ p : Phrase .arguments, Legible p.tokens ∧ p.meaning = es ∧ p.Readable ∧ ∀ rest,
    lex false .blank ((", ".intercalate texts).toList ++ ')' :: rest) =
      p.tokens.map .token ++ lex true .blank (')' :: rest)

namespace PrintsArgs
variable {text : String} {texts : List String} {e : Expr} {es : List Expr}

theorem last (h : Prints .expression text e) : PrintsArgs [text] [e] := by
  obtain ⟨ts, h1, h2, p, rfl, rfl, hp⟩ := h
  refine ⟨.argLast p, h2, rfl, hp, fun rest => ?_⟩
  rw [String.toList_intercalate]
  simpa using h1 _ (boundary_cons (by decide) _)

theorem cons (h : Prints .expression text e) (hs : PrintsArgs texts es) (hne : texts ≠ []) :
    PrintsArgs (text :: texts) (e :: es) := by
  obtain ⟨ts, h1, h2, p, rfl, rfl, hp⟩ := h
  obtain ⟨q, h3, rfl, hq, h4⟩ := hs
  obtain ⟨text', texts, rfl⟩ := List.exists_cons_of_ne_nil hne
  refine ⟨.argCons p (terminal .comma ",") q, by simp [terminal, h2, h3], rfl, ⟨hp, hq⟩, fun rest => ?_⟩
  have htext : (", ".intercalate (text :: text' :: texts)).toList ++ ')' :: rest =
      text.toList ++ ',' :: ' ' :: ((", ".intercalate (text' :: texts)).toList ++ ')' :: rest) := by
    simp [String.toList_intercalate]
  rw [htext, h1 _ (boundary_cons (by decide) _), lex_comma, lex_space, h4]
  simp [terminal]

end PrintsArgs

namespace Prints

theorem callNil {name : String} (hn : IsIdent name) : Prints .primary (name ++ "(" ++ ")") (.call 0 name []) := by
  refine ⟨[⟨⟨.ident, name⟩, 0⟩, ⟨⟨.openParen, "("⟩, 0⟩, ⟨⟨.closeParen, ")"⟩, 0⟩], fun rest hr => ?_, by simp, ?_⟩
  · have htext : (name ++ "(" ++ ")").toList ++ rest = name.toList ++ '(' :: ')' :: rest := by simp
    rw [htext, lex_ident hn (boundary_cons (by decide) _), lex_openParen, lex_closeParen]
    simp
  · exact ⟨.callNil (terminal .ident name) (terminal .openParen "(") (terminal .closeParen ")"), rfl, rfl,
      by simp⟩

theorem call {name : String} {texts : List String} {es : List Expr} (hn : IsIdent name)
    (h : PrintsArgs texts es) :
    Prints .primary (name ++ "(" ++ ", ".intercalate texts ++ ")") (.call 0 name es) := by
  obtain ⟨p, h1, rfl, hp, h2⟩ := h
  refine ⟨⟨⟨.ident, name⟩, 0⟩ :: ⟨⟨.openParen, "("⟩, 0⟩ :: (p.tokens ++ [⟨⟨.closeParen, ")"⟩, 0⟩]),
    fun rest hr => ?_, by simp [h1], ?_⟩
  · have htext : (name ++ "(" ++ ", ".intercalate texts ++ ")").toList ++ rest =
        name.toList ++ '(' :: ((", ".intercalate texts).toList ++ ')' :: rest) := by simp
    rw [htext, lex_ident hn (boundary_cons (by decide) _), lex_openParen, h2, lex_closeParen]
    simp
  · exact ⟨.call (terminal .ident name) (terminal .openParen "(") p (terminal .closeParen ")"), rfl, rfl, hp⟩

end Prints

/-! ### Trees -/

theorem Scan.not_isDigit_of_isWordStart {c : Char} (h : isWordStart c = true) : isDigit c = false := by
  have := isWordStart_iff.1 h
  rw [← Bool.not_eq_true, isDigit_iff]
  omega

/-- Only a numeral without a sign begins with a digit. -/
theorem Expr.exists_head_operand {e : Expr} (hn : e.Named) (h : ∀ p v, e = .num p v → v < 0) :
    ∃ c cs, (e.parenthesize e.render).toList = c :: cs ∧ isDigit c = false := by
  cases e with
  | num p v => exact ⟨'-', _, Numeral.toList_encode_of_neg (h p v rfl), by decide⟩
  | var _ name =>
    obtain ⟨⟨c, cs, hw, hc, -⟩, -⟩ := hn
    exact ⟨c, cs, hw, not_isDigit_of_isWordStart hc⟩
  | neg _ e => exact ⟨'-', (e.parenthesize e.render).toList, by simp [parenthesize, isOpen, render], by decide⟩
  | binary | cond | bind => exact ⟨'(', _, by simp [parenthesize, isOpen, render]; rfl, by decide⟩
  | call _ name args =>
    obtain ⟨⟨⟨c, cs, hw, hc, -⟩, -⟩, -⟩ := hn
    exact ⟨c, _, by simp [parenthesize, isOpen, render, hw]; rfl, not_isDigit_of_isWordStart hc⟩

theorem Expr.fold_neg {e : Expr} (pos : Nat) (h : ∀ p v, e = .num p v → v < 0) :
    (Expr.neg pos e).fold = .neg pos e.fold := by
  cases e with
  | num p v =>
    have := Int64.not_le.2 (h p v rfl)
    simp [fold, this]
  | _ => rfl

/-- A tree is a numeral without a sign, or has a sign if it is a numeral. -/
theorem Expr.eq_num_or (e : Expr) : (∃ p v, e = .num p v ∧ 0 ≤ v) ∨ ∀ p v, e = .num p v → v < 0 := by
  by_cases h : ∃ p v, e = .num p v ∧ 0 ≤ v
  · exact .inl h
  · exact .inr fun p v he => Int64.not_le.1 fun hv => h ⟨p, v, he, hv⟩

theorem Prints.operand {e x : Expr}
    (h : Prints (if e.isOpen then .expression else .unary) e.render x) :
    Prints .unary (e.parenthesize e.render) x := by
  unfold Expr.parenthesize
  split at h
  · next ho =>
    rw [if_pos ho]
    exact h.group.mono (by decide)
  · next ho =>
    rw [if_neg ho]
    exact h

theorem Prints.expression {l : Level} {text : String} {x : Expr} (h : Prints l text x) :
    Prints .expression text x :=
  h.mono (Level.le_expression l)

theorem Prints.unary {text : String} {x : Expr} (h : Prints .primary text x) : Prints .unary text x :=
  h.mono (by decide)

mutual

/-- A tree is written as a phrase that denotes it, an operand unless it extends to the right. -/
theorem Expr.prints : ∀ e : Expr, e.Named →
    Prints (if e.isOpen then .expression else .unary) e.render e.fold.erase
  | .num _ v, _ => (Prints.num v).unary
  | .var _ name, h => (Prints.var h).unary
  | .neg pos e, h => by
    have hn : e.Named := h
    rcases e.eq_num_or with ⟨p, v, rfl, hv⟩ | hv
    · have := (Prints.negNum hv).unary
      simpa [isOpen, render, parenthesize, fold, hv] using this
    · obtain ⟨c, cs, hc, hd⟩ := exists_head_operand hn hv
      rw [fold_neg pos hv]
      exact (Expr.prints e hn).operand.neg hc hd
  | .binary _ op l r, h =>
    (Prints.binary op (Expr.prints l h.1).operand (Expr.prints r h.2).operand).unary
  | .cond _ c t e, h =>
    .cond (Expr.prints c h.1).expression (Expr.prints t h.2.1).expression (Expr.prints e h.2.2).expression
  | .bind _ name v b, h => .bind h.1 (Expr.prints v h.2.1).expression (Expr.prints b h.2.2).expression
  | .call _ name [], h => by
    have := (Prints.callNil h.1).unary
    simpa [isOpen, render, renderAll, fold, foldAll] using this
  | .call _ name (e :: es), h => by
    have := (Prints.call h.1 (Expr.printsAll (e :: es) h.2 (by simp))).unary
    simpa [isOpen, render, fold] using this

theorem Expr.printsAll : ∀ es : List Expr, Expr.NamedAll es → es ≠ [] →
    PrintsArgs (Expr.renderAll es) ((Expr.foldAll es).map Expr.erase)
  | [], _, h => absurd rfl h
  | [e], h, _ => .last (Expr.prints e h.1).expression
  | e :: e' :: es, h, _ =>
    .cons (Expr.prints e h.1).expression (Expr.printsAll (e' :: es) h.2 (by simp)) (by simp [Expr.renderAll])

end

/-! ### Names -/

theorem isIdent_of_proper (t : Terminal [.ident]) (h : t.1.toLexeme.Proper) : IsIdent t.1.text := by
  simp only [Lexeme.Proper, t.kind_eq] at h
  exact h

theorem Expr.namedAll_iff {es : List Expr} : NamedAll es ↔ ∀ e ∈ es, e.Named := by
  induction es with
  | nil => simp [NamedAll]
  | cons e es ih => rw [NamedAll, ih, List.forall_mem_cons]

/-- What a phrase of proper tokens means has proper names. -/
def Grammar.NamedMeaning : (c : Category) → c.Meaning → Prop
  | .level _, e => Expr.Named e
  | .sumTail, g | .productTail, g => ∀ x, Expr.Named x → Expr.Named (g x)
  | .arguments, es => ∀ e ∈ (es : List Expr), e.Named

theorem Grammar.Phrase.named {c : Category} (p : Phrase c) (h : ∀ t ∈ p.tokens, t.toLexeme.Proper) :
    NamedMeaning c p.meaning := by
  induction p with
  | letIn _ name _ _ _ _ ihv ihb =>
    simp only [tokens, List.forall_mem_cons, List.forall_mem_append] at h
    exact ⟨isIdent_of_proper name h.2.1, ihv h.2.2.2.1, ihb h.2.2.2.2.2⟩
  | ifElse _ _ _ _ _ _ ihc iht ihf =>
    simp only [tokens, List.forall_mem_cons, List.forall_mem_append] at h
    exact ⟨ihc h.2.1, iht h.2.2.2.1, ihf h.2.2.2.2.2⟩
  | ofComparison _ ih | ofSum _ ih | ofUnary _ ih | ofPrimary _ ih => exact ih h
  | compare _ _ _ ihl ihr | power _ _ _ ihl ihr =>
    simp only [tokens, List.forall_mem_cons, List.forall_mem_append] at h
    exact ⟨ihl h.1, ihr h.2.2⟩
  | sum _ _ ihf ihr | product _ _ ihf ihr =>
    simp only [tokens, List.forall_mem_append] at h
    exact ihr h.2 _ (ihf h.1)
  | sumNil | productNil => exact fun _ hx => hx
  | sumCons _ _ _ iho ihr | productCons _ _ _ iho ihr =>
    simp only [tokens, List.forall_mem_cons, List.forall_mem_append] at h
    exact fun x hx => ihr h.2.2 _ ⟨hx, iho h.2.1⟩
  | neg _ _ ih => exact ih fun t ht => h t (by simp [ht])
  | numeral _ => trivial
  | ident name => exact isIdent_of_proper name (h _ (by simp))
  | callNil name _ _ => exact ⟨isIdent_of_proper name (h _ (by simp)), trivial⟩
  | call name _ _ _ ih =>
    refine ⟨isIdent_of_proper name (h _ (by simp)), Expr.namedAll_iff.2 (ih fun t ht => h t ?_)⟩
    simp [ht]
  | group _ _ _ ih => exact ih fun t ht => h t (by simp [ht])
  | argLast _ ih => exact List.forall_mem_singleton.2 (ih h)
  | argCons _ _ _ ihe ihr =>
    simp only [tokens, List.forall_mem_cons, List.forall_mem_append] at h
    exact List.forall_mem_cons.2 ⟨ihe h.1, ihr h.2.2⟩

def Statement.Named : Statement → Prop
  | .eval e => e.Named
  | .define _ f => IsIdent f.name ∧ (∀ p ∈ f.params, IsIdent p) ∧ f.params.Nodup ∧ f.body.Named

theorem Grammar.Sentence.named (s : Sentence) (hv : s.Valid) (h : ∀ t ∈ s.tokens, t.toLexeme.Proper) :
    s.statement.Named := by
  cases s with
  | eval e => exact e.named h
  | define kwDef name openParen params closeParen assign body =>
    refine ⟨isIdent_of_proper name (h _ (by simp)), fun p hp => ?_, hv.1, body.named fun t ht => h t (by simp [ht])⟩
    cases params with
    | none => cases hp
    | names first rest =>
      rcases List.mem_cons.1 hp with rfl | hp
      · exact isIdent_of_proper first (h _ (by simp))
      · obtain ⟨q, hq, rfl⟩ := List.mem_map.1 hp
        refine isIdent_of_proper q.2 (h _ ?_)
        simp only [tokens, Parameters.tokens, List.mem_cons, List.mem_append, List.mem_flatMap]
        exact .inr (.inr (.inr (.inl (.inr ⟨q, hq, by simp⟩))))

/-- The names in what the parser reads are words that are no keywords. -/
theorem Program.named_of_mem {lexing : Lexing} {src : Source} {s : Statement}
    (h : s ∈ (Program.parse lexing src).statements) : s.Named := by
  obtain ⟨ts, ⟨sentence, rfl, rfl, hv⟩, hm⟩ := exists_tokens_of_mem h
  obtain ⟨init, pos, hi, hp⟩ := src.scan_eq lexing
  refine sentence.named hv fun t ht => hp t ?_
  have hmem := hm t ht
  rw [hi] at hmem
  rcases List.mem_append.1 hmem with hmem | hmem
  · exact hmem
  · have hk := sentence.kind_ne_eof t ht
    cases he : src.ending with
    | complete =>
      rw [he] at hmem
      obtain rfl : t = _ := Item.token.inj (List.mem_singleton.1 hmem)
      exact absurd rfl hk
    | cutOff cause =>
      rw [he] at hmem
      cases List.mem_singleton.1 hmem

/-! ### Statements -/

theorem exists_parameters : ∀ params : List String, (∀ p ∈ params, IsIdent p) →
    ∃ ps : Parameters, ps.texts = params ∧ Legible ps.tokens ∧ ∀ rest,
      lex false .blank ((", ".intercalate params).toList ++ ')' :: rest) =
        ps.tokens.map .token ++ .token ⟨⟨.closeParen, ")"⟩, 0⟩ :: lex true .blank rest
  | [], _ => ⟨.none, rfl, by simp, fun rest => by simp [lex_closeParen]⟩
  | [p], h => by
    refine ⟨.names (terminal .ident p) [], rfl, by simp [terminal], fun rest => ?_⟩
    have htext : (", ".intercalate [p]).toList = p.toList := by simp
    rw [htext, lex_ident (h p (by simp)) (boundary_cons (by decide) _), lex_closeParen]
    rfl
  | p :: q :: params, h => by
    obtain ⟨ps, hps, hl, hlex⟩ := exists_parameters (q :: params) fun x hx => h x (by simp [hx])
    cases ps with
    | none => cases hps
    | names first rest =>
      refine ⟨.names (terminal .ident p) ((terminal .comma ",", first) :: rest), ?_, ?_, fun rest' => ?_⟩
      · simp only [Parameters.texts, List.map_cons] at hps ⊢
        rw [hps]
        rfl
      · simpa [terminal] using hl
      · have htext : (", ".intercalate (p :: q :: params)).toList ++ ')' :: rest' =
            p.toList ++ ',' :: ' ' :: ((", ".intercalate (q :: params)).toList ++ ')' :: rest') := by
          simp [String.toList_intercalate]
        rw [htext, lex_ident (h p (by simp)) (boundary_cons (by decide) _), lex_comma, lex_space, hlex]
        simp [terminal]

/-- A statement is written as a sentence that says it. -/
theorem Statement.exists_sentence (s : Statement) (h : s.Named) :
    ∃ d : Sentence, d.statement = s.fold.erase ∧ d.Valid ∧ Legible d.tokens ∧
      lex false .blank s.render.toList = d.tokens.map .token ++ [.token ⟨⟨.eof, ""⟩, 0⟩] := by
  cases s with
  | eval e =>
    obtain ⟨ts, h1, h2, p, rfl, hm, hp⟩ := (e.prints h).expression
    refine ⟨.eval p, congrArg Statement.eval hm, hp, h2, ?_⟩
    have := h1 [] (by simp [Boundary])
    rwa [List.append_nil] at this
  | define pos f =>
    obtain ⟨hn, hps, hnd, hb⟩ := h
    obtain ⟨ts, h1, h2, p, rfl, hm, hp⟩ := (f.body.prints hb).expression
    obtain ⟨ps, hps, hpl, hlex⟩ := exists_parameters f.params hps
    refine ⟨.define (terminal .kwDef "DEF") (terminal .ident f.name) (terminal .openParen "(") ps
      (terminal .closeParen ")") (terminal .assign "=") p, ?_, ⟨hps ▸ hnd, hp⟩, ?_, ?_⟩
    · simp only [Sentence.statement_define, hps, hm]
      rfl
    · simp [terminal, hpl, h2]
    · have htext : f.render.toList = "DEF".toList ++ ' ' :: (f.name.toList ++ '(' ::
          ((", ".intercalate f.params).toList ++ ')' :: ' ' :: '=' :: ' ' :: f.body.render.toList)) := by
        simp [Function.render]
      have h1 := h1 [] (by simp [Boundary])
      rw [List.append_nil] at h1
      rw [render, htext, lex_keyword "DEF" .kwDef (by decide), lex_ident hn (boundary_cons (by decide) _),
        lex_openParen, hlex, lex_space, lex_assign, h1]
      simp [terminal, lex, Piece.items, Piece.lexeme?, Piece.stray?]

/-- Reading a rendered statement gives the statement back, up to positions, with the negations of
plain numerals carried out. -/
theorem Program.parse_render {lexing : Lexing} {src : Source} {t : Statement}
    (h : t ∈ (Program.parse lexing src).statements) :
    ∃ t', Program.parse .strict (.ofString t.render) = ⟨[t'], none⟩ ∧ t'.erase = t.fold.erase := by
  obtain ⟨d, hd, hv, hl, hlex⟩ := t.exists_sentence (named_of_mem h)
  have hitems : ((Source.ofString t.render).scan .strict).map (Item.mapPos fun _ => 0) =
      (Script.last d (terminal .eof "")).tokens.map .token := by
    rw [Source.scan_strict, map_items_ofString, hlex]
    simp [terminal]
  have hparse : (Program.parse .strict (.ofString t.render)).mapPos (fun _ => 0) = ⟨[t.fold.erase], none⟩ := by
    rw [parse, ← ofItems_mapPos, hitems, ofItems_script]
    · simp [Script.statements, hd]
    · simpa [Script.Valid] using hv
    · simp [hl, terminal]
  generalize Program.parse .strict (.ofString t.render) = p at hparse
  obtain ⟨statements, fault⟩ := p
  simp only [mapPos, Program.mk.injEq, Option.map_eq_none_iff] at hparse
  obtain ⟨h1, rfl⟩ := hparse
  obtain ⟨t', rfl, ht'⟩ := List.map_eq_singleton_iff.1 h1
  exact ⟨t', rfl, ht'⟩

/-- The sign of a plain numeral is read as part of it, the one of a negative numeral is not. -/
theorem Program.parse_render_power_of_condition :
    ∃ t, Program.parse .lenient (.ofString "-(5)^$(IF x THEN -(-3) ELSE f(1))") = ⟨[t], none⟩ ∧
      ∃ t', Program.parse .strict (.ofString "(-5 ^ (IF x THEN --3 ELSE f(1)))") = ⟨[t'], none⟩ ∧
        t'.erase = .eval (.binary 0 .pow (.num 0 (-5))
          (.cond 0 (.var 0 "x") (.neg 0 (.num 0 (-3))) (.call 0 "f" [.num 0 1]))) := by
  obtain ⟨t, ht⟩ : ∃ t, t = Statement.eval (.binary 4 .pow (.neg 0 (.num 2 5))
      (.cond 7 (.var 10 "x") (.neg 17 (.num 19 (-3))) (.call 28 "f" [.num 30 1]))) := ⟨_, rfl⟩
  have h : Program.parse .lenient (.ofString "-(5)^$(IF x THEN -(-3) ELSE f(1))") = ⟨[t], none⟩ := by
    rw [ht]
    rfl
  have hm : t ∈ (Program.parse .lenient (.ofString "-(5)^$(IF x THEN -(-3) ELSE f(1))")).statements := by
    rw [h]
    exact List.mem_singleton.2 rfl
  obtain ⟨t', h1, h2⟩ := Program.parse_render hm
  have hr : t.render = "(-5 ^ (IF x THEN --3 ELSE f(1)))" := by
    rw [ht]
    decide
  rw [hr] at h1
  rw [ht] at h2
  exact ⟨t, h, t', h1, h2⟩

end Octal
