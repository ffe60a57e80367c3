import Octal.Proofs.Grammar.Unambiguous
import Octal.Proofs.Parse.Soundness

/-!
# Every derivation is read

What is left is that the tokens of a valid script never fail: which trees come out then follows from
soundness, since no other script has these tokens. So the lemmas here do not say what was read, only
what is still open. After a phrase of level `l` that began over `stack` there is an operand, and
above `stack` only frames that end with it and are at most of that level (`Stage.Pends`). An operator
that may follow the phrase combines exactly these frames, and so does a token that may follow the
whole expression.
-/

namespace Octal

open Grammar

namespace Parse

namespace Stage

def run (stage : Stage) (ts : List Token) : Stage := ts.foldl step stage

@[simp] theorem run_nil (stage : Stage) : stage.run [] = stage := rfl

@[simp] theorem run_cons (stage : Stage) (t : Token) (ts : List Token) :
    stage.run (t :: ts) = (stage.step t).run ts := rfl

@[simp] theorem run_append (stage : Stage) (ts ts' : List Token) :
    stage.run (ts ++ ts') = (stage.run ts).run ts' :=
  List.foldl_append

/-- The first token of a phrase of level `l` begins it over `stack`. -/
def Opens (l : Level) (stack : List Frame) (stage : Stage) : Prop :=
  ∀ t : Token, t.kind ∈ (l : Category).starts → stage.step t = expressionAt stack t

/-- The operand of `stage` is the end of a phrase of level `l` over `stack`. -/
def Pends (l : Level) (stack : List Frame) (stage : Stage) : Prop :=
  ∃ (e : Expr) (fs : List Frame), (∀ f ∈ fs, f.closes = true ∧ f.result ≤ l) ∧
    (stage = .operator e (fs ++ stack) ∨
      ∃ pos name, e = .var pos name ∧ stage = .ident pos name (fs ++ stack))

end Stage

@[simp] theorem expect_terminal {kind : Kind} (t : Terminal [kind]) (next : Stage) :
    expect kind t.1 next = next :=
  if_pos t.kind_eq

section
variable {p : Frame → Bool} {fs stack : List Frame}

/-- Reducing takes the frames of `fs` and leaves `stack`, when the first frame there stays. -/
theorem reduce_append (hfs : ∀ f ∈ fs, f.closes = true ∧ p f = true)
    (hs : ∀ f ∈ stack.head?, f.closes = false ∨ p f = false) (e : Expr) :
    ∃ e', reduce p e (fs ++ stack) = (e', stack) := by
  induction fs generalizing e with
  | nil =>
    cases stack with
    | nil => exact ⟨e, rfl⟩
    | cons f stack =>
      have hc := f.isSome_close? e
      refine ⟨e, ?_⟩
      rw [List.nil_append, reduce]
      rcases hs f rfl with hf | hf
      · rw [hf, Option.isSome_eq_false_iff, Option.isNone_iff_eq_none] at hc
        rw [hc]
      · cases f.close? e <;> simp [hf]
  | cons f fs ih =>
    have hf := hfs f (by simp)
    obtain ⟨e₁, he₁⟩ := Option.isSome_iff_exists.1 ((f.isSome_close? e).trans hf.1)
    obtain ⟨e', he'⟩ := ih (fun g hg => hfs g (by simp [hg])) e₁
    refine ⟨e', ?_⟩
    rw [List.cons_append, reduce, he₁]
    simp only [hf.2, if_true]
    exact he'

end

/-- The kinds of token that may follow a whole expression. -/
def delimiters : List Kind := [.closeParen, .comma, .kwThen, .kwElse, .kwIn, .semicolon, .eof]

namespace Stage.Pends
variable {l l' : Level} {stack : List Frame} {stage : Stage} {t : Token}

theorem mono (h : Pends l stack stage) (hl : l ≤ l') : Pends l' stack stage := by
  obtain ⟨e, fs, hfs, hstage⟩ := h
  exact ⟨e, fs, fun f hf => ⟨(hfs f hf).1, Level.le_trans (hfs f hf).2 hl⟩, hstage⟩

theorem operand (e : Expr) : Pends l stack (.operator e stack) :=
  ⟨e, [], by simp, .inl rfl⟩

/-- A construct that ends with a phrase ends where the phrase does. -/
theorem pop {f : Frame} (h : Pends l (f :: stack) stage) (hc : f.closes = true) (hl : l ≤ l')
    (hf : f.result ≤ l') : Pends l' stack stage := by
  obtain ⟨e, fs, hfs, hstage⟩ := h.mono hl
  refine ⟨e, fs ++ [f], fun g hg => ?_, by simpa using hstage⟩
  rcases List.mem_append.1 hg with hg | hg
  · exact hfs g hg
  · rw [List.mem_singleton.1 hg]
    exact ⟨hc, hf⟩

theorem step_eq (h : Pends l stack stage) (ht : t.kind ≠ .openParen) :
    ∃ e fs, (∀ f ∈ fs, f.closes = true ∧ f.result ≤ l) ∧ stage.step t = operatorAt e (fs ++ stack) t := by
  obtain ⟨e, fs, hfs, rfl | ⟨pos, name, rfl, rfl⟩⟩ := h
  · exact ⟨e, fs, hfs, rfl⟩
  · exact ⟨_, fs, hfs, by rw [step, if_neg ht]⟩

/-- An operator after its left operand. -/
theorem operator {op : Operator} (h : Pends l stack stage) (ht : t.operator? = some op)
    (hl : l ≤ op.leftLevel) (hs : op.level ≤ hole stack) :
    ∃ left, stage.step t = .operand (.right t.pos op left :: stack) := by
  have hk : t.kind ≠ .openParen := by
    rw [Token.kind_of_operator? ht]
    cases op <;> decide
  obtain ⟨e, fs, hfs, hstep⟩ := h.step_eq hk
  have hs : ∀ f ∈ stack.head?, f.bindsBefore op = false ∧ (op.isComparison && f.isComparison) = false := by
    intro f hf
    cases stack with
    | nil => cases hf
    | cons g rest =>
      obtain rfl : g = f := by simpa using hf
      exact Frame.level_le_hole_iff.1 hs
  have hfs : ∀ f ∈ fs, f.closes = true ∧ f.bindsBefore op = true := fun f hf =>
    ⟨(hfs f hf).1, Frame.bindsBefore_of_result_le (hfs f hf).1 (Level.le_trans (hfs f hf).2 hl)⟩
  obtain ⟨left, hred⟩ := reduce_append hfs (fun f hf => .inr (hs f hf).1) e
  refine ⟨left, ?_⟩
  rw [hstep, operatorAt, ht]
  simp only [hred]
  rw [if_neg]
  cases stack with
  | nil => simp
  | cons g rest => simp [(hs g rfl).2]

/-- A delimiter after a whole expression. -/
theorem delimit (h : Pends .expression stack stage) (ht : t.kind ∈ delimiters)
    (hs : ∀ f ∈ stack.head?, f.closes = false) : ∃ e, stage.step t = delimit e t stack := by
  have hop : t.operator? = none := Token.operator?_eq_none (⟨t, ht⟩ : Terminal delimiters) (by decide)
  obtain ⟨e, fs, hfs, hstep⟩ := h.step_eq fun hk => absurd (hk ▸ ht) (by decide)
  obtain ⟨e', hred⟩ := reduce_append (p := fun _ => true) (fun f hf => ⟨(hfs f hf).1, rfl⟩)
    (fun f hf => .inl (hs f hf)) e
  refine ⟨e', ?_⟩
  rw [hstep, operatorAt, hop]
  simp only
  rw [if_neg fun hk => absurd (hk ▸ ht) (by decide), closeAt, hred]

end Stage.Pends

namespace Stage.Opens
variable {l l' : Level} {stack : List Frame} {stage : Stage}

theorem mono (h : Opens l stack stage) (hl : ∀ k ∈ (l' : Category).starts, k ∈ (l : Category).starts) :
    Opens l' stack stage :=
  fun t ht => h t (hl _ ht)

theorem expression (stack : List Frame) : Opens .expression stack (.expression stack) :=
  fun _ _ => rfl

theorem operand (stack : List Frame) : Opens .comparison stack (.operand stack) := by
  intro t ht
  rw [step, expressionAt]
  split <;> simp_all [Category.starts]

theorem arguments (pos : Nat) (name : String) (stack : List Frame) :
    Opens .expression (.callArg pos name [] :: stack) (.arguments pos name stack) := by
  intro t ht
  rw [step, if_neg fun hk => absurd (hk ▸ ht) (by decide)]

theorem statement {stage : Stage} (h : ∀ t, stage.step t = statementAt t) :
    Opens .expression [] stage := by
  intro t ht
  rw [h, statementAt]
  split <;> simp_all [Category.starts]

/-- An operand that begins with a token other than a keyword. -/
theorem step_operand (h : Opens l stack stage) (t : Token) (hl : t.kind ∈ (l : Category).starts)
    (ht : t.kind ≠ .kwLet ∧ t.kind ≠ .kwIf) : stage.step t = operandAt stack t := by
  have hk : t.kind ≠ .eof := fun hk => absurd (hk ▸ hl) (by cases l <;> decide)
  rw [h t hl, expressionAt]
  split <;> simp_all

theorem step_ident (h : Opens .primary stack stage) (name : Terminal [.ident]) :
    stage.step name.1 = .ident name.1.pos name.1.text stack := by
  rw [h.step_operand name.1 (by simp [Category.starts]) (by simp)]
  simp [operandAt]

end Stage.Opens

open Stage

/-- The phrase `p` is read wherever it may stand. -/
def Accepts : {c : Category} → Phrase c → Prop
  | .level l, p => ∀ stack stage, l ≤ hole stack → Opens l stack stage → Pends l stack (stage.run p.tokens)
  | .sumTail, p => ∀ stack stage, Level.sum ≤ hole stack → Pends .sum stack stage →
    Pends .sum stack (stage.run p.tokens)
  | .productTail, p => ∀ stack stage, Level.product ≤ hole stack → Pends .product stack stage →
    Pends .product stack (stage.run p.tokens)
  | .arguments, p => ∀ stack stage pos name args,
    Opens .expression (.callArg pos name args :: stack) stage →
    ∃ args', Pends .expression (.callArg pos name args' :: stack) (stage.run p.tokens)

namespace Accepts

theorem letIn {kwLet name assign kwIn} {value body : Phrase Level.expression} (hv : Accepts value)
    (hb : Accepts body) : Accepts (.letIn kwLet name assign value kwIn body) := by
  intro stack stage hl ho
  have h₁ : stage.step kwLet.1 = .bindName kwLet.1.pos stack := by
    simp [ho kwLet.1 (by simp [Category.starts]), expressionAt]
  have h₂ : (Stage.bindName kwLet.1.pos stack).run [name.1, assign.1] =
      .expression (.bindValue kwLet.1.pos name.1.text :: stack) := by
    simp [step]
  have h₃ := hv (.bindValue kwLet.1.pos name.1.text :: stack) _ (Level.le_expression _) (.expression _)
  obtain ⟨e, h₄⟩ := h₃.delimit (t := kwIn.1) (by simp [delimiters]) (by simp [Frame.closes])
  have h₅ := hb (.bindBody kwLet.1.pos name.1.text e :: stack) _ (Level.le_expression _) (.expression _)
  rw [run_cons, run_cons, run_nil] at h₂
  simpa [h₁, h₂, h₄, delimit] using h₅.pop rfl (Level.le_expression _) (Level.le_expression _)

theorem ifElse {kwIf kwThen kwElse} {test whenTrue whenFalse : Phrase Level.expression}
    (hc : Accepts test) (ht : Accepts whenTrue) (hf : Accepts whenFalse) :
    Accepts (.ifElse kwIf test kwThen whenTrue kwElse whenFalse) := by
  intro stack stage hl ho
  have h₁ : stage.step kwIf.1 = .expression (.condTest kwIf.1.pos :: stack) := by
    simp [ho kwIf.1 (by simp [Category.starts]), expressionAt]
  have h₂ := hc (.condTest kwIf.1.pos :: stack) _ (Level.le_expression _) (.expression _)
  obtain ⟨e₁, h₃⟩ := h₂.delimit (t := kwThen.1) (by simp [delimiters]) (by simp [Frame.closes])
  have h₄ := ht (.condTrue kwIf.1.pos e₁ :: stack) _ (Level.le_expression _) (.expression _)
  obtain ⟨e₂, h₅⟩ := h₄.delimit (t := kwElse.1) (by simp [delimiters]) (by simp [Frame.closes])
  have h₆ := hf (.condFalse kwIf.1.pos e₁ e₂ :: stack) _ (Level.le_expression _) (.expression _)
  simpa [h₁, h₃, h₅, delimit] using h₆.pop rfl (Level.le_expression _) (Level.le_expression _)

/-- An operation: its left operand pends, and its right operand follows. -/
theorem operation {l r m : Level} {op : Operator} {t : Token} {right : Phrase r} (hr : Accepts right)
    (ht : t.operator? = some op) (hop : l ≤ op.leftLevel ∧ op.rightLevel = r ∧ op.level = m)
    {stack : List Frame} {stage : Stage} (h : Pends l stack stage) (hs : m ≤ hole stack) :
    Pends m stack (stage.run (t :: right.tokens)) := by
  obtain ⟨hl, rfl, rfl⟩ := hop
  obtain ⟨left, h₁⟩ := h.operator ht hl hs
  have h₂ := hr (.right t.pos op left :: stack) _ (Nat.le_refl _)
    ((Opens.operand _).mono (by cases op <;> decide))
  rw [run_cons, h₁]
  exact h₂.pop rfl (by cases op <;> decide) (Nat.le_refl _)

theorem compare {op : Terminal [.compare]} {left right : Phrase Level.sum} (hl : Accepts left)
    (hr : Accepts right) (hop : op.1.operator?.isSome) : Accepts (.compare left op right) := by
  intro stack stage hs ho
  obtain ⟨o, ht⟩ := Option.isSome_iff_exists.1 hop
  have hk : o.kind = .compare := (Token.kind_of_operator? ht).symm.trans op.kind_eq
  have h := hl stack stage (Level.le_trans (by decide) hs) (ho.mono (by decide))
  rw [Phrase.tokens, run_append]
  exact operation hr ht (by revert hk; cases o <;> decide) h hs

theorem sum {first : Phrase Level.product} {rest : Phrase .sumTail} (hf : Accepts first)
    (hr : Accepts rest) : Accepts (.sum first rest) := by
  intro stack stage hs ho
  have h := hf stack stage (Level.le_trans (by decide) hs) (ho.mono (by decide))
  rw [Phrase.tokens, run_append]
  exact hr stack _ hs (h.mono (by decide))

theorem sumCons {op : Terminal [.plus, .minus]} {operand : Phrase Level.product}
    {rest : Phrase .sumTail} (ho : Accepts operand) (hr : Accepts rest) :
    Accepts (.sumCons op operand rest) := by
  intro stack stage hs h
  obtain ⟨o, ht, hk⟩ := Token.exists_operator op (by decide)
  rw [Phrase.tokens, ← List.cons_append, run_append]
  exact hr stack _ hs (operation ho ht (by revert hk; cases o <;> decide) h hs)

theorem product {first : Phrase Level.power} {rest : Phrase .productTail} (hf : Accepts first)
    (hr : Accepts rest) : Accepts (.product first rest) := by
  intro stack stage hs ho
  have h := hf stack stage (Level.le_trans (by decide) hs) (ho.mono (by decide))
  rw [Phrase.tokens, run_append]
  exact hr stack _ hs (h.mono (by decide))

theorem productCons {op : Terminal [.times, .divide, .modulo]} {operand : Phrase Level.power}
    {rest : Phrase .productTail} (ho : Accepts operand) (hr : Accepts rest) :
    Accepts (.productCons op operand rest) := by
  intro stack stage hs h
  obtain ⟨o, ht, hk⟩ := Token.exists_operator op (by decide)
  rw [Phrase.tokens, ← List.cons_append, run_append]
  exact hr stack _ hs (operation ho ht (by revert hk; cases o <;> decide) h hs)

theorem power {op : Terminal [.power]} {base : Phrase Level.unary} {exponent : Phrase Level.power}
    (hb : Accepts base) (he : Accepts exponent) : Accepts (.power base op exponent) := by
  intro stack stage hs ho
  obtain ⟨o, ht, hk⟩ := Token.exists_operator op (by decide)
  have h := hb stack stage (Level.le_trans (by decide) hs) (ho.mono (by decide))
  rw [Phrase.tokens, run_append]
  exact operation he ht (by revert hk; cases o <;> decide) h hs

theorem neg {minus : Terminal [.minus]} {operand : Phrase Level.unary} (h : Accepts operand) :
    Accepts (.neg minus operand) := by
  intro stack stage _ ho
  have h₁ : stage.step minus.1 = .operand (.neg minus.1.pos :: stack) := by
    rw [ho.step_operand minus.1 (by simp [Category.starts]) (by simp)]
    simp [operandAt]
  have h₂ := h (.neg minus.1.pos :: stack) _ (Nat.le_refl _) ((Opens.operand _).mono (by decide))
  rw [Phrase.tokens, run_cons, h₁]
  exact h₂.pop rfl (Nat.le_refl _) (Nat.le_refl _)

/-- A phrase of the next level that is one of the level below. -/
theorem weaken {l l' : Level} {p : Phrase l} {p' : Phrase l'} (h : Accepts p)
    (htokens : p'.tokens = p.tokens) (hl : l ≤ l')
    (hstarts : ∀ k ∈ (l : Category).starts, k ∈ (l' : Category).starts) : Accepts p' := by
  intro stack stage hs ho
  rw [htokens]
  exact (h stack stage (Level.le_trans hl hs) (ho.mono hstarts)).mono hl

theorem numeral {t : Terminal [.number]} (hv : ∃ value, Numeral.decode t.1.text.toList = .ok value) :
    Accepts (.numeral t) := by
  intro stack stage _ ho
  obtain ⟨value, hv⟩ := hv
  have h : stage.step t.1 = .operator (.num t.1.pos value) stack := by
    rw [ho.step_operand t.1 (by simp [Category.starts]) (by simp)]
    simp [operandAt, hv]
  rw [Phrase.tokens, run_cons, h]
  exact .operand _

theorem ident {name : Terminal [.ident]} : Accepts (.ident name) := by
  intro stack stage _ ho
  rw [Phrase.tokens, run_cons, ho.step_ident]
  exact ⟨_, [], by simp, .inr ⟨_, _, rfl, rfl⟩⟩

theorem callNil {name openParen closeParen} : Accepts (.callNil name openParen closeParen) := by
  intro stack stage _ ho
  rw [Phrase.tokens, run_cons, ho.step_ident, run_cons, step, if_pos openParen.kind_eq, run_cons, step,
    if_pos closeParen.kind_eq]
  exact .operand _

theorem call {name openParen closeParen} {args : Phrase .arguments} (ha : Accepts args) :
    Accepts (.call name openParen args closeParen) := by
  intro stack stage _ ho
  have h₁ : (Stage.ident name.1.pos name.1.text stack).step openParen.1 =
      .arguments name.1.pos name.1.text stack := by
    rw [step, if_pos openParen.kind_eq]
  obtain ⟨args', h₂⟩ := ha stack _ _ _ _ (.arguments name.1.pos name.1.text stack)
  obtain ⟨e, h₃⟩ := h₂.delimit (t := closeParen.1) (by simp [delimiters]) (by simp [Frame.closes])
  rw [Phrase.tokens, run_cons, ho.step_ident, run_cons, h₁, run_append, run_cons, h₃]
  simpa [Parse.delimit] using Pends.operand _

theorem group {openParen closeParen} {e : Phrase Level.expression} (he : Accepts e) :
    Accepts (.group openParen e closeParen) := by
  intro stack stage _ ho
  have h₁ : stage.step openParen.1 = .expression (.paren :: stack) := by
    rw [ho.step_operand openParen.1 (by simp [Category.starts]) (by simp)]
    simp [operandAt]
  have h₂ := he (.paren :: stack) _ (Level.le_expression _) (.expression _)
  obtain ⟨e', h₃⟩ := h₂.delimit (t := closeParen.1) (by simp [delimiters]) (by simp [Frame.closes])
  rw [Phrase.tokens, run_cons, h₁, run_append, run_cons, h₃]
  simpa [Parse.delimit] using Pends.operand _

theorem argLast {e : Phrase Level.expression} (he : Accepts e) : Accepts (.argLast e) :=
  fun _ _ _ _ args ho => ⟨args, he _ _ (Level.le_expression _) ho⟩

theorem argCons {comma} {e : Phrase Level.expression} {rest : Phrase .arguments} (he : Accepts e)
    (hr : Accepts rest) : Accepts (.argCons e comma rest) := by
  intro stack stage pos name args ho
  have h₁ := he _ _ (Level.le_expression _) ho
  obtain ⟨e', h₂⟩ := h₁.delimit (t := comma.1) (by simp [delimiters]) (by simp [Frame.closes])
  rw [Phrase.tokens, run_append, run_cons, h₂]
  simpa [Parse.delimit] using hr stack _ pos name (e' :: args) (.expression _)

end Accepts

/-- The text of every comparison is one that stands for an operator. -/
def Legible (ts : List Token) : Prop := ∀ t ∈ ts, t.kind = .compare → t.operator?.isSome

theorem accepts {c : Category} (p : Phrase c) (hp : p.Readable) (hl : Legible p.tokens) :
    Accepts p := by
  induction p with
  | letIn _ _ _ _ _ _ ihv ihb =>
    simp only [Legible, Phrase.tokens, List.forall_mem_cons, List.forall_mem_append] at hl
    exact .letIn (ihv hp.1 hl.2.2.2.1) (ihb hp.2 hl.2.2.2.2.2)
  | ifElse _ _ _ _ _ _ ihc iht ihf =>
    simp only [Legible, Phrase.tokens, List.forall_mem_cons, List.forall_mem_append] at hl
    exact .ifElse (ihc hp.1 hl.2.1) (iht hp.2.1 hl.2.2.2.1) (ihf hp.2.2 hl.2.2.2.2.2)
  | ofComparison _ ih => exact (ih hp hl).weaken rfl (by decide) (by decide)
  | ofSum _ ih => exact (ih hp hl).weaken rfl (by decide) (by decide)
  | compare _ op _ ihl ihr =>
    simp only [Legible, Phrase.tokens, List.forall_mem_cons, List.forall_mem_append] at hl
    exact .compare (ihl hp.1 hl.1) (ihr hp.2 hl.2.2) (hl.2.1 op.kind_eq)
  | sum _ _ ihf ihr =>
    simp only [Legible, Phrase.tokens, List.forall_mem_append] at hl
    exact .sum (ihf hp.1 hl.1) (ihr hp.2 hl.2)
  | sumNil => exact fun _ _ _ h => h
  | sumCons _ _ _ iho ihr =>
    simp only [Legible, Phrase.tokens, List.forall_mem_cons, List.forall_mem_append] at hl
    exact .sumCons (iho hp.1 hl.2.1) (ihr hp.2 hl.2.2)
  | product _ _ ihf ihr =>
    simp only [Legible, Phrase.tokens, List.forall_mem_append] at hl
    exact .product (ihf hp.1 hl.1) (ihr hp.2 hl.2)
  | productNil => exact fun _ _ _ h => h
  | productCons _ _ _ iho ihr =>
    simp only [Legible, Phrase.tokens, List.forall_mem_cons, List.forall_mem_append] at hl
    exact .productCons (iho hp.1 hl.2.1) (ihr hp.2 hl.2.2)
  | ofUnary _ ih => exact (ih hp hl).weaken rfl (by decide) (by decide)
  | power _ _ _ ihb ihe =>
    simp only [Legible, Phrase.tokens, List.forall_mem_cons, List.forall_mem_append] at hl
    exact .power (ihb hp.1 hl.1) (ihe hp.2 hl.2.2)
  | neg _ _ ih => exact .neg (ih hp fun t ht => hl t (by simp [ht]))
  | ofPrimary _ ih => exact (ih hp hl).weaken rfl (by decide) (by decide)
  | numeral _ => exact .numeral hp
  | ident _ => exact .ident
  | callNil _ _ _ => exact .callNil
  | call _ _ _ _ ih => exact .call (ih hp fun t ht => hl t (by simp [ht]))
  | group _ _ _ ih => exact .group (ih hp fun t ht => hl t (by simp [ht]))
  | argLast _ ih => exact .argLast (ih hp hl)
  | argCons _ _ _ ihe ihr =>
    simp only [Legible, Phrase.tokens, List.forall_mem_cons, List.forall_mem_append] at hl
    exact .argCons (ihe hp.1 hl.1) (ihr hp.2 hl.2.2)

/-! ### Definitions, statements and scripts -/

theorem not_contains_of_nodup {params rest : List String} {param : String}
    (h : (params.reverse ++ param :: rest).Nodup) : ¬ params.contains param = true := by
  intro hc
  have hm : param ∈ params.reverse := by simpa using hc
  exact (List.nodup_append.1 h).2.2 param hm param (by simp) rfl

theorem run_defComma {pos : Nat} {name : String} (close : Terminal [.closeParen])
    (rest : List (Terminal [.comma] × Terminal [.ident])) {params : List String} {param : String}
    {paramPos : Nat} (hn : (params.reverse ++ param :: rest.map fun p => p.2.1.text).Nodup) :
    (Stage.defComma pos name params param paramPos).run
        (rest.flatMap (fun p => [p.1.1, p.2.1]) ++ [close.1]) =
      .defAssign pos name (params.reverse ++ param :: rest.map fun p => p.2.1.text) := by
  have hc := not_contains_of_nodup hn
  induction rest generalizing params param paramPos with
  | nil =>
    have hk : close.1.kind ≠ .comma := by simp
    rw [List.flatMap_nil, List.nil_append, run_cons, step, if_neg hc, if_neg hk, expect_terminal]
    simp
  | cons p rest ih =>
    have hn' : ((param :: params).reverse ++ p.2.1.text :: rest.map fun p => p.2.1.text).Nodup := by
      simpa using hn
    have h₁ : (Stage.defComma pos name params param paramPos).step p.1.1 =
        .defParam pos name (param :: params) := by
      rw [step, if_neg hc, if_pos p.1.kind_eq]
    have h₂ : (Stage.defParam pos name (param :: params)).step p.2.1 =
        .defComma pos name (param :: params) p.2.1.text p.2.1.pos :=
      expect_terminal p.2 _
    simp only [List.flatMap_cons, List.cons_append, List.nil_append, run_cons, h₁, h₂]
    rw [ih hn' (not_contains_of_nodup hn')]
    simp

theorem run_parameters (pos : Nat) (name : String) (ps : Parameters) (hn : ps.texts.Nodup)
    (close : Terminal [.closeParen]) :
    (Stage.defParams pos name).run (ps.tokens ++ [close.1]) = .defAssign pos name ps.texts := by
  cases ps with
  | none => simp [step]
  | names first rest =>
    have h₁ : (Stage.defParams pos name).step first.1 = .defComma pos name [] first.1.text first.1.pos := by
      rw [step, if_pos first.kind_eq]
    rw [Parameters.tokens, List.cons_append, run_cons, h₁]
    exact run_defComma close rest hn

section
variable {stage : Stage} (hstage : ∀ t, stage.step t = statementAt t)
include hstage

/-- A sentence is read up to the token that ends the statement. -/
theorem run_sentence (s : Sentence) (hv : s.Valid) (hl : Legible s.tokens) {t : Token}
    (ht : t.kind ∈ delimiters) :
    ∃ x problem, (stage.run s.tokens).step t = endStatement x t problem := by
  cases s with
  | eval e =>
    have h := accepts e hv hl [] stage (Level.le_expression _) (.statement hstage)
    obtain ⟨e', h'⟩ := h.delimit ht (by simp)
    exact ⟨_, _, h'⟩
  | define kwDef name openParen params closeParen assign body =>
    have h₁ : stage.run [kwDef.1, name.1, openParen.1] = .defParams kwDef.1.pos name.1.text := by
      rw [run_cons, hstage]
      simp [statementAt, step]
    have h₂ := run_parameters kwDef.1.pos name.1.text params hv.1 closeParen
    have h₃ : (Stage.defAssign kwDef.1.pos name.1.text params.texts).step assign.1 =
        .expression [.body kwDef.1.pos name.1.text params.texts] :=
      expect_terminal assign _
    have h₄ := accepts body hv.2 (fun t ht => hl t (by simp [ht]))
      [.body kwDef.1.pos name.1.text params.texts] _ (Level.le_expression _) (.expression _)
    obtain ⟨e, h₅⟩ := h₄.delimit ht (by simp [Frame.closes])
    have htokens : (Sentence.define kwDef name openParen params closeParen assign body).tokens =
        [kwDef.1, name.1, openParen.1] ++ ((params.tokens ++ [closeParen.1]) ++ assign.1 :: body.tokens) := by
      simp
    rw [htokens, run_append, h₁, run_append, h₂, run_cons, h₃]
    exact ⟨_, _, h₅⟩

theorem run_script (d : Script) (hv : d.Valid) (hl : Legible d.tokens) :
    ∃ x, stage.run d.tokens = .ended x := by
  induction d generalizing stage with
  | done eof => exact ⟨none, by simp [hstage, statementAt]⟩
  | last s eof =>
    obtain ⟨x, problem, h⟩ := run_sentence hstage s (hv s (by simp))
      (fun t ht => hl t (List.mem_append_left _ ht)) (t := eof.1) (by simp [delimiters])
    exact ⟨some x, by rw [Script.tokens, run_append, run_cons, h]; simp [endStatement]⟩
  | next s semicolon rest ih =>
    obtain ⟨x, problem, h⟩ := run_sentence hstage s (hv s (by simp))
      (fun t ht => hl t (List.mem_append_left _ ht)) (t := semicolon.1) (by simp [delimiters])
    have h' : endStatement x semicolon.1 problem = .separated x := by simp [endStatement]
    rw [Script.tokens, run_append, run_cons, h, h']
    exact ih (fun _ => rfl) (fun s' hs' => hv s' (by simp [hs'])) fun t ht => hl t (by simp [ht])

end

theorem State.stage_run (s : State) (ts : List Token) :
    ((ts.map Item.token).foldl feed s).stage = s.stage.run ts := by
  induction ts generalizing s with
  | nil => rfl
  | cons t ts ih =>
    rw [List.map_cons, List.foldl_cons, ih, stage_feed_token]
    rfl

end Parse

/-! ### The end of a script -/

namespace Grammar

theorem Terminal.kind_ne_eof {ks : List Kind} (t : Terminal ks) (h : .eof ∉ ks) : t.1.kind ≠ .eof :=
  fun hk => h (hk ▸ t.2)

theorem Phrase.kind_ne_eof {c : Category} (p : Phrase c) : ∀ t ∈ p.tokens, t.kind ≠ .eof := by
  induction p <;> simp_all [or_imp, Terminal.kind_ne_eof]

theorem Sentence.kind_ne_eof (s : Sentence) : ∀ t ∈ s.tokens, t.kind ≠ .eof := by
  cases s with
  | eval e => exact e.kind_ne_eof
  | define kwDef name openParen params closeParen assign body =>
    cases params <;> simp_all [or_imp, body.kind_ne_eof]

theorem Script.exists_eof (d : Script) :
    ∃ (init : List Token) (eof : Terminal [.eof]), d.tokens = init ++ [eof.1] ∧
      ∀ t ∈ init, t.kind ≠ .eof := by
  induction d with
  | done eof => exact ⟨[], eof, rfl, by simp⟩
  | last s eof => exact ⟨s.tokens, eof, rfl, s.kind_ne_eof⟩
  | next s semicolon rest ih =>
    obtain ⟨init, eof, h, hi⟩ := ih
    refine ⟨s.tokens ++ semicolon.1 :: init, eof, by simp [Script.tokens, h], ?_⟩
    rw [List.forall_mem_append, List.forall_mem_cons]
    exact ⟨s.kind_ne_eof, by simp, hi⟩

end Grammar

namespace Program
open Parse

/-- The tokens of a valid script parse. -/
theorem fault_eq_none (d : Script) (hv : d.Valid) (hl : Legible d.tokens) :
    (ofItems (d.tokens.map .token)).fault = none := by
  obtain ⟨x, h⟩ := run_script (fun _ => (rfl : Stage.start.step _ = _)) d hv hl
  have hs := (State.stage_run State.initial d.tokens).trans h
  rw [ofItems, State.program, hs]
  cases x <;> rfl

/-- They give the statements of the script, since no other script has these tokens. -/
theorem ofItems_script (d : Script) (hv : d.Valid) (hl : Legible d.tokens) :
    ofItems (d.tokens.map .token) = ⟨d.statements, none⟩ := by
  obtain ⟨init, eof, hd, hi⟩ := d.exists_eof
  have hs : ofItems (d.tokens.map .token) = ⟨(ofItems (d.tokens.map .token)).statements, none⟩ := by
    rw [← fault_eq_none d hv hl]
  rw [hd] at hs ⊢
  obtain ⟨d', hd', -, ht⟩ := exists_script hi eof hs
  rw [hs, ← ht, Script.tokens_inj (hd.trans hd'.symm)]

end Program

end Octal
