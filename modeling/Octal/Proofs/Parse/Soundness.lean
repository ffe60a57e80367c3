import Octal.Proofs.Failure
import Octal.Proofs.Parse.Level

/-!
# What the parser has read

A stage of the parser stands for a derivation that is still open. `Frame.Reads f ts` says that `ts`
are the tokens of the construct `f` up to the phrase it waits for, `StackReads` puts the frames of a
stack one after the other, and `Stage.Reads` does the same for a whole stage. Every token that does
not fail keeps this up (`Stage.Reads.step`), so a statement that was read is the meaning of a sentence
that has exactly its tokens.
-/

namespace Octal

open Grammar

namespace Grammar

/-- `ts` are the tokens of a phrase of level `l` that denotes `e`. -/
def Denotes (l : Level) (ts : List Token) (e : Expr) : Prop :=
  ∃ p : Phrase l, p.tokens = ts ∧ p.meaning = e ∧ p.Readable

namespace Denotes
variable {l l' : Level} {ts ls rs : List Token} {e left right : Expr}

theorem up (h : Denotes l ts e) : Denotes l.up ts e := by
  obtain ⟨p, rfl, rfl, hr⟩ := h
  cases l with
  | primary => exact ⟨.ofPrimary p, rfl, rfl, hr⟩
  | unary => exact ⟨.ofUnary p, rfl, rfl, hr⟩
  | power => exact ⟨.product p .productNil, by simp, rfl, by simp [hr]⟩
  | product => exact ⟨.sum p .sumNil, by simp, rfl, by simp [hr]⟩
  | sum => exact ⟨.ofSum p, rfl, rfl, hr⟩
  | comparison => exact ⟨.ofComparison p, rfl, rfl, hr⟩
  | expression => exact ⟨p, rfl, rfl, hr⟩

theorem mono (h : Denotes l ts e) (hl : l ≤ l') : Denotes l' ts e :=
  Level.le_induction (P := fun l => Denotes l ts e) hl h fun _ => up

theorem sumTail_snoc (op : Terminal [.plus, .minus]) (p : Phrase Level.product) (hp : p.Readable) :
    ∀ rest : Phrase .sumTail, rest.Readable → ∃ rest' : Phrase .sumTail,
      rest'.tokens = rest.tokens ++ op.1 :: p.tokens ∧ rest'.Readable ∧
      ∀ x, rest'.meaning x = .binary op.1.pos (operatorOf op.1) (rest.meaning x) p.meaning
  | .sumNil, _ => ⟨.sumCons op p .sumNil, by simp, by simp [hp], fun _ => rfl⟩
  | .sumCons op' p' rest, h => by
    obtain ⟨rest', h1, h2, h3⟩ := sumTail_snoc op p hp rest h.2
    exact ⟨.sumCons op' p' rest', by simp [h1], ⟨h.1, h2⟩, fun x => h3 _⟩

theorem productTail_snoc (op : Terminal [.times, .divide, .modulo]) (p : Phrase Level.power)
    (hp : p.Readable) : ∀ rest : Phrase .productTail, rest.Readable → ∃ rest' : Phrase .productTail,
      rest'.tokens = rest.tokens ++ op.1 :: p.tokens ∧ rest'.Readable ∧
      ∀ x, rest'.meaning x = .binary op.1.pos (operatorOf op.1) (rest.meaning x) p.meaning
  | .productNil, _ => ⟨.productCons op p .productNil, by simp, by simp [hp], fun _ => rfl⟩
  | .productCons op' p' rest, h => by
    obtain ⟨rest', h1, h2, h3⟩ := productTail_snoc op p hp rest h.2
    exact ⟨.productCons op' p' rest', by simp [h1], ⟨h.1, h2⟩, fun x => h3 _⟩

theorem sum (op : Terminal [.plus, .minus]) (hl : Denotes .sum ls left)
    (hr : Denotes .product rs right) :
    Denotes .sum (ls ++ op.1 :: rs) (.binary op.1.pos (operatorOf op.1) left right) := by
  obtain ⟨p, rfl, rfl, hp⟩ := hr
  obtain ⟨q, rfl, rfl, hq⟩ := hl
  cases q with
  | sum first rest =>
    obtain ⟨rest', h1, h2, h3⟩ := sumTail_snoc op p hp rest hq.2
    exact ⟨.sum first rest', by simp [h1], h3 _, hq.1, h2⟩

theorem product (op : Terminal [.times, .divide, .modulo]) (hl : Denotes .product ls left)
    (hr : Denotes .power rs right) :
    Denotes .product (ls ++ op.1 :: rs) (.binary op.1.pos (operatorOf op.1) left right) := by
  obtain ⟨p, rfl, rfl, hp⟩ := hr
  obtain ⟨q, rfl, rfl, hq⟩ := hl
  cases q with
  | product first rest =>
    obtain ⟨rest', h1, h2, h3⟩ := productTail_snoc op p hp rest hq.2
    exact ⟨.product first rest', by simp [h1], h3 _, hq.1, h2⟩

theorem power (op : Terminal [.power]) (hl : Denotes .unary ls left) (hr : Denotes .power rs right) :
    Denotes .power (ls ++ op.1 :: rs) (.binary op.1.pos (operatorOf op.1) left right) := by
  obtain ⟨p, rfl, rfl, hp⟩ := hl
  obtain ⟨q, rfl, rfl, hq⟩ := hr
  exact ⟨.power p op q, rfl, rfl, hp, hq⟩

theorem compare (op : Terminal [.compare]) (hl : Denotes .sum ls left) (hr : Denotes .sum rs right) :
    Denotes .comparison (ls ++ op.1 :: rs) (.binary op.1.pos (operatorOf op.1) left right) := by
  obtain ⟨p, rfl, rfl, hp⟩ := hl
  obtain ⟨q, rfl, rfl, hq⟩ := hr
  exact ⟨.compare p op q, rfl, rfl, hp, hq⟩

/-- Each operator makes a phrase of its level from operands of its two levels. -/
theorem binary {t : Token} {op : Operator} (ht : t.operator? = some op)
    (hl : Denotes op.leftLevel ls left) (hr : Denotes op.rightLevel rs right) :
    Denotes op.level (ls ++ t :: rs) (.binary t.pos op left right) := by
  have hk := Token.kind_of_operator? ht
  have ho := Token.operatorOf_eq ht
  cases op with
  | add | sub =>
    have h := sum ⟨t, by simp [hk, Operator.kind]⟩ hl hr
    rwa [ho] at h
  | mul | div | mod =>
    have h := product ⟨t, by simp [hk, Operator.kind]⟩ hl hr
    rwa [ho] at h
  | pow =>
    have h := power ⟨t, by simp [hk, Operator.kind]⟩ hl hr
    rwa [ho] at h
  | eq | ne | lt | gt | le | ge =>
    have h := compare ⟨t, by simp [hk, Operator.kind]⟩ hl hr
    rwa [ho] at h

theorem neg (m : Terminal [.minus]) (h : Denotes .unary ts e) :
    Denotes .unary (m.1 :: ts) (.neg m.1.pos e) := by
  obtain ⟨p, rfl, rfl, hp⟩ := h
  exact ⟨.neg m p, rfl, rfl, hp⟩

end Denotes

end Grammar

namespace Parse

/-- `ts` are arguments, each with the comma after it; `args` has them last one first. -/
inductive ArgsRead : List Token → List Expr → Prop where
  | nil : ArgsRead [] []
  | snoc {ts es : List Token} {args : List Expr} {e : Expr} (h : ArgsRead ts args)
      (he : Denotes .expression es e) (comma : Terminal [.comma]) :
      ArgsRead (ts ++ (es ++ [comma.1])) (e :: args)

theorem ArgsRead.append {ts : List Token} {args : List Expr} (h : ArgsRead ts args)
    (q : Phrase .arguments) (hq : q.Readable) : ∃ p : Phrase .arguments,
      p.tokens = ts ++ q.tokens ∧ p.meaning = args.reverse ++ q.meaning ∧ p.Readable := by
  induction h generalizing q with
  | nil => exact ⟨q, rfl, rfl, hq⟩
  | snoc _ he comma ih =>
    obtain ⟨e, rfl, rfl, hr⟩ := he
    obtain ⟨p, h1, h2, h3⟩ := ih (.argCons e comma q) ⟨hr, hq⟩
    exact ⟨p, by simp [h1], by simp [h2], h3⟩

/-- `ts` begin the definition of `name`, up to the opening parenthesis. -/
def DefRead (pos : Nat) (name : String) (ts : List Token) : Prop :=
  ∃ (d : Terminal [.kwDef]) (n : Terminal [.ident]) (o : Terminal [.openParen]),
    ts = [d.1, n.1, o.1] ∧ d.1.pos = pos ∧ n.1.text = name

namespace Frame

/-- `ts` are the tokens of the construct, up to the phrase it waits for. -/
def Reads : Frame → List Token → Prop
  | paren, ts => ∃ o : Terminal [.openParen], ts = [o.1]
  | condTest pos, ts => ∃ i : Terminal [.kwIf], ts = [i.1] ∧ i.1.pos = pos
  | condTrue pos test, ts => ∃ (i : Terminal [.kwIf]) (cs : List Token) (th : Terminal [.kwThen]),
    ts = i.1 :: (cs ++ [th.1]) ∧ i.1.pos = pos ∧ Denotes .expression cs test
  | condFalse pos test whenTrue, ts =>
    ∃ (i : Terminal [.kwIf]) (cs : List Token) (th : Terminal [.kwThen]) (bs : List Token)
      (el : Terminal [.kwElse]), ts = i.1 :: (cs ++ th.1 :: (bs ++ [el.1])) ∧ i.1.pos = pos ∧
      Denotes .expression cs test ∧ Denotes .expression bs whenTrue
  | bindValue pos name, ts =>
    ∃ (l : Terminal [.kwLet]) (n : Terminal [.ident]) (a : Terminal [.assign]),
      ts = [l.1, n.1, a.1] ∧ l.1.pos = pos ∧ n.1.text = name
  | bindBody pos name value, ts =>
    ∃ (l : Terminal [.kwLet]) (n : Terminal [.ident]) (a : Terminal [.assign]) (vs : List Token)
      (i : Terminal [.kwIn]), ts = l.1 :: n.1 :: a.1 :: (vs ++ [i.1]) ∧ l.1.pos = pos ∧
      n.1.text = name ∧ Denotes .expression vs value
  | callArg pos name args, ts =>
    ∃ (n : Terminal [.ident]) (o : Terminal [.openParen]) (rest : List Token),
      ts = n.1 :: o.1 :: rest ∧ n.1.pos = pos ∧ n.1.text = name ∧ ArgsRead rest args
  | neg pos, ts => ∃ m : Terminal [.minus], ts = [m.1] ∧ m.1.pos = pos
  | right pos op left, ts => ∃ (ls : List Token) (t : Token),
    ts = ls ++ [t] ∧ t.operator? = some op ∧ t.pos = pos ∧ Denotes op.leftLevel ls left
  | body pos name params, ts => ∃ (ds : List Token) (ps : Parameters) (c : Terminal [.closeParen])
      (a : Terminal [.assign]), ts = ds ++ (ps.tokens ++ [c.1, a.1]) ∧ DefRead pos name ds ∧
      ps.texts = params ∧ ps.texts.Nodup

/-- Whether the construct may stand where `stack` waits. -/
def Fits : Frame → List Frame → Prop
  | body _ _ _, stack => stack = []
  | f, stack => f.result ≤ Parse.hole stack

variable {f : Frame} {stack : List Frame} {ts es : List Token} {e e' : Expr}

theorem Fits.le (h : f.Fits stack) (hc : f.closes = true) : f.result ≤ Parse.hole stack := by
  cases f with
  | body => cases hc
  | _ => exact h

/-- A construct that ends with its phrase is a phrase together with it. -/
theorem Reads.close (h : f.Reads ts) (he : Denotes f.hole es e) (hc : f.close? e = some e') :
    Denotes f.result (ts ++ es) e' := by
  cases f with
  | condFalse pos test whenTrue =>
    obtain ⟨i, cs, th, bs, el, rfl, rfl, ⟨p, rfl, rfl, hp⟩, q, rfl, rfl, hq⟩ := h
    change Denotes .expression es e at he
    obtain ⟨r, rfl, rfl, hr⟩ := he
    cases hc
    exact ⟨.ifElse i p th q el r, by simp, rfl, hp, hq, hr⟩
  | bindBody pos name value =>
    obtain ⟨l, n, a, vs, i, rfl, rfl, rfl, p, rfl, rfl, hp⟩ := h
    change Denotes .expression es e at he
    obtain ⟨q, rfl, rfl, hq⟩ := he
    cases hc
    exact ⟨.letIn l n a p i q, by simp, rfl, hp, hq⟩
  | neg pos =>
    obtain ⟨m, rfl, rfl⟩ := h
    cases hc
    exact he.neg m
  | right pos op left =>
    obtain ⟨ls, t, rfl, ht, rfl, hl⟩ := h
    cases hc
    rw [List.append_assoc]
    exact Denotes.binary ht hl he
  | _ => cases hc

end Frame

/-- `ts` are the tokens of the constructs of a stack, innermost first, up to the phrase they wait
for. -/
def StackReads : List Frame → List Token → Prop
  | [], ts => ts = []
  | f :: stack, ts => ∃ ts₁ ts₂, ts = ts₁ ++ ts₂ ∧ StackReads stack ts₁ ∧ f.Reads ts₂ ∧ f.Fits stack

theorem StackReads.push {f : Frame} {stack : List Frame} {ts ts' : List Token}
    (h : StackReads stack ts) (hf : f.Reads ts') (hs : f.Fits stack) :
    StackReads (f :: stack) (ts ++ ts') :=
  ⟨ts, ts', rfl, h, hf, hs⟩

section
variable {p : Frame → Bool} {m l : Level} {stack : List Frame} {ts es : List Token} {e : Expr}

/-- Reducing takes tokens from the stack to the phrase. What it gives is at most of level `m` when
the frames it may close are. -/
theorem reduce_reads (hp : ∀ f, p f = true → f.closes = true → f.result ≤ m)
    (hs : StackReads stack ts) (he : Denotes l es e) (hl : l ≤ hole stack) (hm : l ≤ m) :
    ∃ ts' es' l', ts ++ es = ts' ++ es' ∧ StackReads (reduce p e stack).2 ts' ∧
      Denotes l' es' (reduce p e stack).1 ∧ l' ≤ hole (reduce p e stack).2 ∧ l' ≤ m := by
  induction stack generalizing ts es l e with
  | nil => exact ⟨ts, es, l, rfl, hs, he, hl, hm⟩
  | cons f stack ih =>
    rw [reduce]
    have hc := f.isSome_close? e
    split
    · next e' heq =>
      rw [heq] at hc
      split
      · next hf =>
        obtain ⟨ts₁, ts₂, rfl, hs, hr, hfit⟩ := hs
        rw [List.append_assoc]
        exact ih hs (hr.close (he.mono hl) heq) (hfit.le hc.symm) (hp f hf hc.symm)
      · exact ⟨ts, es, l, rfl, hs, he, hl, hm⟩
    · exact ⟨ts, es, l, rfl, hs, he, hl, hm⟩

/-- Reducing stops at a frame that does not end here or that `p` spares. -/
theorem reduce_top {f : Frame} {rest : List Frame} (h : (reduce p e stack).2 = f :: rest) :
    f.closes = false ∨ p f = false := by
  induction stack generalizing e with
  | nil => cases h
  | cons g stack ih =>
    rw [reduce] at h
    have hc := g.isSome_close? e
    split at h
    · next heq =>
      split at h
      · exact ih h
      · next hg => cases h; exact .inr (by simpa using hg)
    · next heq => cases h; rw [heq] at hc; exact .inl hc.symm

end

/-! ### Stages -/

/-- `s` is what the sentence of `ts` says. -/
def Says (ts : List Token) (s : Statement) : Prop :=
  ∃ sentence : Sentence, sentence.tokens = ts ∧ sentence.statement = s ∧ sentence.Valid

/-- `ts` are the tokens of the current statement that a stage stands for. -/
def Stage.Reads : Stage → List Token → Prop
  | .start, ts => ts = []
  | .expression stack, ts => StackReads stack ts ∧ hole stack = .expression
  | .operand stack, ts => StackReads stack ts
  | .operator e stack, ts =>
    ∃ ts₁ ts₂, ts = ts₁ ++ ts₂ ∧ StackReads stack ts₁ ∧ Denotes .primary ts₂ e
  | .ident pos name stack, ts => ∃ (ts₁ : List Token) (n : Terminal [.ident]),
    ts = ts₁ ++ [n.1] ∧ StackReads stack ts₁ ∧ n.1.pos = pos ∧ n.1.text = name
  | .arguments pos name stack, ts =>
    ∃ (ts₁ : List Token) (n : Terminal [.ident]) (o : Terminal [.openParen]),
      ts = ts₁ ++ [n.1, o.1] ∧ StackReads stack ts₁ ∧ n.1.pos = pos ∧ n.1.text = name
  | .bindName pos stack, ts => ∃ (ts₁ : List Token) (l : Terminal [.kwLet]),
    ts = ts₁ ++ [l.1] ∧ StackReads stack ts₁ ∧ hole stack = .expression ∧ l.1.pos = pos
  | .bindAssign pos name stack, ts =>
    ∃ (ts₁ : List Token) (l : Terminal [.kwLet]) (n : Terminal [.ident]),
      ts = ts₁ ++ [l.1, n.1] ∧ StackReads stack ts₁ ∧ hole stack = .expression ∧ l.1.pos = pos ∧
      n.1.text = name
  | .defName pos, ts => ∃ d : Terminal [.kwDef], ts = [d.1] ∧ d.1.pos = pos
  | .defOpen pos name, ts => ∃ (d : Terminal [.kwDef]) (n : Terminal [.ident]),
    ts = [d.1, n.1] ∧ d.1.pos = pos ∧ n.1.text = name
  | .defParams pos name, ts => DefRead pos name ts
  | .defParam pos name params, ts =>
    ∃ (ds : List Token) (first : Terminal [.ident])
      (rest : List (Terminal [.comma] × Terminal [.ident])) (c : Terminal [.comma]),
      ts = ds ++ ((Parameters.names first rest).tokens ++ [c.1]) ∧ DefRead pos name ds ∧
      (Parameters.names first rest).texts = params.reverse ∧ params.reverse.Nodup
  | .defComma pos name params param _, ts =>
    ∃ (ds : List Token) (first : Terminal [.ident])
      (rest : List (Terminal [.comma] × Terminal [.ident])),
      ts = ds ++ (Parameters.names first rest).tokens ∧ DefRead pos name ds ∧
      (Parameters.names first rest).texts = params.reverse ++ [param] ∧ params.reverse.Nodup
  | .defAssign pos name params, ts => ∃ (ds : List Token) (ps : Parameters) (c : Terminal [.closeParen]),
    ts = ds ++ (ps.tokens ++ [c.1]) ∧ DefRead pos name ds ∧ ps.texts = params ∧ params.Nodup
  | .separated s, ts => ∃ (ts₁ : List Token) (semicolon : Terminal [.semicolon]),
    ts = ts₁ ++ [semicolon.1] ∧ Says ts₁ s
  | .ended none, ts => ∃ eof : Terminal [.eof], ts = [eof.1]
  | .ended (some s), ts => ∃ (ts₁ : List Token) (eof : Terminal [.eof]),
    ts = ts₁ ++ [eof.1] ∧ Says ts₁ s
  | .failed _, _ => True

section
variable {stack : List Frame} {ts es : List Token} {e : Expr} {t : Token}

theorem reads_expect {kind : Kind} {next : Stage}
    (h : ∀ k : Terminal [kind], k.1 = t → next.Reads (ts ++ [t])) :
    (expect kind t next).Reads (ts ++ [t]) := by
  unfold expect
  split
  · next hk => exact h ⟨t, by simp [hk]⟩ rfl
  · trivial

theorem reads_operandAt (hs : StackReads stack ts) : (operandAt stack t).Reads (ts ++ [t]) := by
  unfold operandAt
  split
  · next hk => exact hs.push (f := .neg t.pos) ⟨⟨t, by simp [hk]⟩, rfl, rfl⟩ (unary_le_hole stack)
  · next hk =>
    split
    · next value hv =>
      exact ⟨ts, [t], rfl, hs, .numeral ⟨t, by simp [hk]⟩, rfl, by simp [valueOf, hv], by simp [hv]⟩
    · trivial
  · next hk =>
    exact ⟨hs.push (f := .paren) ⟨⟨t, by simp [hk]⟩, rfl⟩
      (Level.le_trans (by decide) (unary_le_hole stack)), rfl⟩
  · next hk => exact ⟨ts, ⟨t, by simp [hk]⟩, rfl, hs, rfl, rfl⟩
  all_goals trivial

theorem reads_expressionAt (hs : StackReads stack ts) (hh : hole stack = .expression) :
    (expressionAt stack t).Reads (ts ++ [t]) := by
  unfold expressionAt
  split
  · next hk => exact ⟨ts, ⟨t, by simp [hk]⟩, rfl, hs, hh, rfl⟩
  · next hk =>
    refine ⟨hs.push (f := .condTest t.pos) ⟨⟨t, by simp [hk]⟩, rfl, rfl⟩ ?_, rfl⟩
    show Level.expression ≤ hole stack
    rw [hh]
    decide
  · trivial
  · exact reads_operandAt hs

theorem reads_statementAt (t : Token) : (statementAt t).Reads [t] := by
  unfold statementAt
  split
  · next hk => exact ⟨⟨t, by simp [hk]⟩, rfl⟩
  · next hk => exact ⟨⟨t, by simp [hk]⟩, rfl, rfl⟩
  · exact reads_expressionAt (show StackReads [] [] from rfl) rfl

theorem reads_endStatement {s : Statement} {problem : Lexeme → Problem} (h : Says ts s) :
    (endStatement s t problem).Reads (ts ++ [t]) := by
  unfold endStatement
  split
  · next hk => exact ⟨ts, ⟨t, by simp [hk]⟩, rfl, h⟩
  · next hk => exact ⟨ts, ⟨t, by simp [hk]⟩, rfl, h⟩
  · trivial

/-- A whole expression is what the construct around it waits for, and `t` goes on with that. -/
theorem reads_delimit (hs : StackReads stack ts) (he : Denotes .expression es e)
    (hc : ∀ f ∈ stack.head?, f.closes = false) : (delimit e t stack).Reads (ts ++ es ++ [t]) := by
  obtain ⟨p, rfl, rfl, hp⟩ := he
  cases stack with
  | nil =>
    obtain rfl : ts = [] := hs
    exact reads_endStatement ⟨.eval p, by simp, rfl, hp⟩
  | cons f stack =>
    obtain ⟨ts₁, ts₂, rfl, hs, hf, hfit⟩ := hs
    have hc := hc f rfl
    cases f with
    | paren =>
      obtain ⟨o, rfl⟩ := hf
      refine reads_expect fun k hk => ⟨ts₁, o.1 :: (p.tokens ++ [t]), by simp, hs, ?_⟩
      exact ⟨.group o p k, by simp [hk], rfl, hp⟩
    | condTest pos =>
      obtain ⟨i, rfl, rfl⟩ := hf
      refine reads_expect fun k hk => ⟨?_, rfl⟩
      have hr : (Frame.condTrue i.1.pos p.meaning).Reads (i.1 :: (p.tokens ++ [k.1])) :=
        ⟨i, p.tokens, k, rfl, rfl, p, rfl, rfl, hp⟩
      simpa [hk] using hs.push hr hfit
    | condTrue pos test =>
      obtain ⟨i, cs, th, rfl, rfl, hq⟩ := hf
      refine reads_expect fun k hk => ⟨?_, rfl⟩
      have hr : (Frame.condFalse i.1.pos test p.meaning).Reads
          (i.1 :: (cs ++ th.1 :: (p.tokens ++ [k.1]))) :=
        ⟨i, cs, th, p.tokens, k, rfl, rfl, hq, p, rfl, rfl, hp⟩
      simpa [hk] using hs.push hr hfit
    | bindValue pos name =>
      obtain ⟨l, n, a, rfl, rfl, rfl⟩ := hf
      refine reads_expect fun k hk => ⟨?_, rfl⟩
      have hr : (Frame.bindBody l.1.pos n.1.text p.meaning).Reads
          (l.1 :: n.1 :: a.1 :: (p.tokens ++ [k.1])) :=
        ⟨l, n, a, p.tokens, k, rfl, rfl, rfl, p, rfl, rfl, hp⟩
      simpa [hk] using hs.push hr hfit
    | callArg pos name args =>
      obtain ⟨n, o, rest, rfl, rfl, rfl, ha⟩ := hf
      by_cases hk : t.kind = .comma
      · rw [delimit, if_pos hk]
        have hr : (Frame.callArg n.1.pos n.1.text (p.meaning :: args)).Reads _ :=
          ⟨n, o, _, rfl, rfl, rfl, ha.snoc ⟨p, rfl, rfl, hp⟩ ⟨t, by simp [hk]⟩⟩
        exact ⟨by simpa using hs.push hr hfit, rfl⟩
      · rw [delimit, if_neg hk]
        obtain ⟨q, h1, h2, h3⟩ := ha.append (.argLast p) hp
        refine reads_expect fun k hk => ⟨ts₁, n.1 :: o.1 :: (q.tokens ++ [t]), by simp [h1], hs, ?_⟩
        exact ⟨.call n o q k, by simp [hk], by simp [h2], h3⟩
    | body pos name params =>
      obtain ⟨ds, ps, c, a, rfl, ⟨d, n, o, rfl, rfl, rfl⟩, rfl, hn⟩ := hf
      obtain rfl : stack = [] := hfit
      obtain rfl : ts₁ = [] := hs
      exact reads_endStatement ⟨.define d n o ps c a p, by simp, rfl, hn, hp⟩
    | condFalse | bindBody | neg | right => cases hc

theorem reads_closeAt (hs : StackReads stack ts) (he : Denotes .primary es e) :
    (closeAt e stack t).Reads (ts ++ es ++ [t]) := by
  have hl := Level.le_trans (by decide : Level.primary ≤ .unary) (unary_le_hole stack)
  obtain ⟨ts', es', l, h, hs', he', -, -⟩ := reduce_reads (p := fun _ => true) (m := .expression)
    (fun f _ _ => Level.le_expression _) hs he hl (by decide)
  rw [h]
  refine reads_delimit hs' (he'.mono (Level.le_expression l)) fun f hf => ?_
  match heq : (reduce (fun _ => true) e stack).2 with
  | [] => simp [heq] at hf
  | g :: rest =>
    obtain rfl : g = f := by simpa [heq] using hf
    simpa using reduce_top heq

theorem reads_operatorAt (hs : StackReads stack ts) (he : Denotes .primary es e) :
    (operatorAt e stack t).Reads (ts ++ es ++ [t]) := by
  have hl := Level.le_trans (by decide : Level.primary ≤ .unary) (unary_le_hole stack)
  unfold operatorAt
  split
  · next op hop =>
    obtain ⟨ts', es', l, h, hs', he', -, hm⟩ := reduce_reads (p := Frame.bindsBefore op)
      (fun f hf _ => Frame.result_le_of_bindsBefore hf) hs he hl
      (Level.le_trans (by decide) op.unary_le_leftLevel)
    dsimp only
    split
    · exact reads_closeAt hs he
    · next hcmp =>
      rw [h, List.append_assoc]
      refine hs'.push ⟨es', t, rfl, hop, rfl, he'.mono hm⟩ ?_
      show op.level ≤ hole (reduce (Frame.bindsBefore op) e stack).2
      match heq : (reduce (Frame.bindsBefore op) e stack).2 with
      | [] => exact op.level_le_expression
      | f :: rest =>
        rw [heq] at hcmp
        refine Frame.level_le_hole_iff.2 ⟨?_, by simpa using hcmp⟩
        rcases reduce_top heq with hf | hf
        · exact Bool.eq_false_iff.2 fun hb => by simp [Frame.closes_of_bindsBefore hb] at hf
        · exact hf
  · split
    · trivial
    · exact reads_closeAt hs he

end

namespace Stage.Reads
variable {stage : Stage} {ts : List Token} {t : Token}

/-- Only the end of the input ends a parse. -/
theorem exists_eof {s : Option Statement} (h : (ended s).Reads ts) : ∃ t ∈ ts, t.kind = .eof := by
  cases s with
  | none =>
    obtain ⟨eof, rfl⟩ := h
    exact ⟨eof.1, by simp⟩
  | some s =>
    obtain ⟨ts₁, eof, rfl, -⟩ := h
    exact ⟨eof.1, by simp⟩

/-- Parameters are looked up among those before them one token late, when the next one is there. -/
theorem step_defComma {pos : Nat} {name param : String} {params : List String} {paramPos : Nat}
    (h : (defComma pos name params param paramPos).Reads ts) :
    ((defComma pos name params param paramPos).step t).Reads (ts ++ [t]) := by
  obtain ⟨ds, first, rest, rfl, hd, hp, hn⟩ := h
  by_cases hc : params.contains param
  · rw [step, if_pos hc]
    trivial
  have hn' : (params.reverse ++ [param]).Nodup := by
    refine List.nodup_append.2 ⟨hn, by simp, fun x hx y hy => ?_⟩
    rintro rfl
    exact hc (by simpa [List.mem_singleton.1 hy] using hx)
  by_cases hk : t.kind = .comma
  · rw [step, if_neg hc, if_pos hk]
    exact ⟨ds, first, rest, ⟨t, by simp [hk]⟩, by simp, hd, by rw [hp]; simp, by simpa using hn'⟩
  · rw [step, if_neg hc, if_neg hk]
    refine reads_expect fun k hk => ⟨ds, .names first rest, k, by simp [hk], hd, ?_, by simpa using hn'⟩
    rw [hp, List.reverse_cons]

/-- One token. After a separator it begins the next statement, so that nothing of this one is left. -/
theorem step (h : stage.Reads ts) (hend : ∀ s, stage ≠ ended s) (hsep : ∀ s, stage ≠ separated s) :
    (stage.step t).Reads (ts ++ [t]) := by
  cases stage with
  | start =>
    obtain rfl : ts = [] := h
    exact reads_statementAt t
  | expression stack => exact reads_expressionAt h.1 h.2
  | operand stack => exact reads_operandAt h
  | operator e stack =>
    obtain ⟨ts₁, ts₂, rfl, hs, he⟩ := h
    exact reads_operatorAt hs he
  | ident pos name stack =>
    obtain ⟨ts₁, n, rfl, hs, rfl, rfl⟩ := h
    by_cases hk : t.kind = .openParen
    · rw [Stage.step, if_pos hk]
      exact ⟨ts₁, n, ⟨t, by simp [hk]⟩, by simp, hs, rfl, rfl⟩
    · rw [Stage.step, if_neg hk]
      exact reads_operatorAt hs ⟨.ident n, rfl, rfl, trivial⟩
  | arguments pos name stack =>
    obtain ⟨ts₁, n, o, rfl, hs, rfl, rfl⟩ := h
    by_cases hk : t.kind = .closeParen
    · rw [Stage.step, if_pos hk]
      exact ⟨ts₁, [n.1, o.1, t], by simp, hs, .callNil n o ⟨t, by simp [hk]⟩, rfl, rfl, by simp⟩
    · rw [Stage.step, if_neg hk]
      refine reads_expressionAt (hs.push ⟨n, o, [], rfl, rfl, rfl, .nil⟩ ?_) rfl
      exact Level.le_trans (show Level.primary ≤ .unary by decide) (unary_le_hole stack)
  | bindName pos stack =>
    obtain ⟨ts₁, l, rfl, hs, hh, rfl⟩ := h
    exact reads_expect fun k hk => ⟨ts₁, l, k, by simp [hk], hs, hh, rfl, by rw [hk]⟩
  | bindAssign pos name stack =>
    obtain ⟨ts₁, l, n, rfl, hs, hh, rfl, rfl⟩ := h
    refine reads_expect fun k hk => ⟨?_, rfl⟩
    have hr : (Frame.bindValue l.1.pos n.1.text).Reads [l.1, n.1, k.1] := ⟨l, n, k, rfl, rfl, rfl⟩
    have hfit : (Frame.bindValue l.1.pos n.1.text).Fits stack := by
      show Level.expression ≤ hole stack
      rw [hh]
      decide
    simpa [hk] using hs.push hr hfit
  | defName pos =>
    obtain ⟨d, rfl, rfl⟩ := h
    exact reads_expect fun k hk => ⟨d, k, by simp [hk], rfl, by rw [hk]⟩
  | defOpen pos name =>
    obtain ⟨d, n, rfl, rfl, rfl⟩ := h
    exact reads_expect fun k hk => ⟨d, n, k, by simp [hk], rfl, rfl⟩
  | defParams pos name =>
    by_cases hk : t.kind = .ident
    · rw [Stage.step, if_pos hk]
      exact ⟨ts, ⟨t, by simp [hk]⟩, [], by simp, h, by simp, by simp⟩
    · rw [Stage.step, if_neg hk]
      exact reads_expect fun k hk => ⟨ts, .none, k, by simp [hk], h, rfl, by simp⟩
  | defParam pos name params =>
    obtain ⟨ds, first, rest, c, rfl, hd, hp, hn⟩ := h
    refine reads_expect fun k hk => ⟨ds, first, rest ++ [(c, k)], by simp [hk], hd, ?_, hn⟩
    simp only [Parameters.texts] at hp
    simp [← hp, hk]
  | defComma pos name params param paramPos => exact h.step_defComma
  | defAssign pos name params =>
    obtain ⟨ds, ps, c, rfl, hd, rfl, hn⟩ := h
    refine reads_expect fun k hk => ⟨?_, rfl⟩
    have hr : (Frame.body pos name ps.texts).Reads (ds ++ (ps.tokens ++ [c.1, k.1])) :=
      ⟨ds, ps, c, k, rfl, hd, rfl, hn⟩
    have hs : StackReads [] [] := rfl
    simpa [hk] using hs.push hr rfl
  | separated s => exact absurd rfl (hsep s)
  | ended s => exact absurd rfl (hend s)
  | failed cause => trivial

end Stage.Reads

/-! ### Whole sources -/

/-- `ts` are statements, each with the semicolon after it; `ss` has what they say, last one first. -/
inductive StatementsRead : List Statement → List Token → Prop where
  | nil : StatementsRead [] []
  | snoc {ss : List Statement} {s : Statement} {ts ts' : List Token} (h : StatementsRead ss ts)
      (hs : Says ts' s) (semicolon : Terminal [.semicolon]) :
      StatementsRead (s :: ss) (ts ++ (ts' ++ [semicolon.1]))

/-- `ts` are the tokens a state stands for. -/
def State.Reads (s : State) (ts : List Token) : Prop :=
  ∃ ts₁ ts₂, ts = ts₁ ++ ts₂ ∧ StatementsRead s.statements ts₁ ∧ s.stage.Reads ts₂

namespace State
variable {s : State} {ts : List Token} {t : Token}

theorem stage_feed_token (s : State) (t : Token) : (s.feed (.token t)).stage = s.stage.step t := by
  rw [stage_feed, receive_token]

theorem feed_separated {statements : List Statement} {s : Statement} :
    feed ⟨statements, .separated s⟩ (.token t) = ⟨s :: statements, statementAt t⟩ := rfl

theorem feed_token (h : ∀ x, s.stage ≠ .separated x) :
    s.feed (.token t) = ⟨s.statements, s.stage.step t⟩ := by
  unfold feed
  split
  · next heq _ => exact absurd heq (h _)
  · rw [receive_token]

theorem Reads.feed (h : s.Reads ts) (hend : ∀ x, s.stage ≠ .ended x) :
    (s.feed (.token t)).Reads (ts ++ [t]) := by
  obtain ⟨ts₁, ts₂, rfl, hd, hr⟩ := h
  obtain ⟨statements, stage⟩ := s
  by_cases hsep : ∃ x, stage = .separated x
  · obtain ⟨x, rfl⟩ := hsep
    obtain ⟨ts₃, semicolon, rfl, hx⟩ := hr
    rw [feed_separated]
    exact ⟨ts₁ ++ (ts₃ ++ [semicolon.1]), [t], rfl, hd.snoc hx semicolon, reads_statementAt t⟩
  · have hsep : ∀ x, stage ≠ .separated x := fun x hx => hsep ⟨x, hx⟩
    rw [feed_token hsep]
    exact ⟨ts₁, ts₂ ++ [t], by simp, hd, hr.step hend hsep⟩

theorem Reads.not_ended (h : s.Reads ts) (hts : ∀ t ∈ ts, t.kind ≠ .eof) (x : Option Statement) :
    s.stage ≠ .ended x := by
  obtain ⟨ts₁, ts₂, rfl, -, hr⟩ := h
  intro hx
  rw [hx] at hr
  obtain ⟨eof, hm, hk⟩ := hr.exists_eof
  exact hts eof (by simp [hm]) hk

theorem Reads.run {ts' : List Token} (h : s.Reads ts) (hts : ∀ t ∈ ts ++ ts', t.kind ≠ .eof) :
    ((ts'.map Item.token).foldl State.feed s).Reads (ts ++ ts') := by
  induction ts' generalizing s ts with
  | nil => simpa using h
  | cons t ts' ih =>
    have h' := h.feed (t := t) (h.not_ended fun x hx => hts x (by simp [hx]))
    simpa using ih h' (by simpa using hts)

theorem reads_initial : initial.Reads [] := ⟨[], [], rfl, .nil, rfl⟩

/-- Items that are no tokens fail, and leave what was read before them. -/
theorem Reads.feed_item (h : s.Reads ts) (item : Item) :
    ∃ ts', (s.feed item).Reads ts' ∧ List.Sublist (ts'.map .token) (ts.map .token ++ [item]) := by
  obtain ⟨statements, stage⟩ := s
  have hkept : List.Sublist (ts.map .token) (ts.map .token ++ [item]) := List.sublist_append_left _ _
  cases item with
  | token t =>
    by_cases hend : ∃ x, stage = .ended x
    · obtain ⟨x, rfl⟩ := hend
      exact ⟨ts, h, hkept⟩
    · refine ⟨ts ++ [t], h.feed fun x hx => hend ⟨x, hx⟩, ?_⟩
      rw [List.map_append]
      exact List.Sublist.refl _
  | stray pos c =>
    obtain ⟨ts₁, ts₂, rfl, hd, -⟩ := h
    refine ⟨ts₁ ++ ts₂, ⟨ts₁, ts₂, rfl, ?_, ?_⟩, hkept⟩ <;> cases stage <;> trivial
  | failed cause =>
    obtain ⟨ts₁, ts₂, rfl, hd, -⟩ := h
    refine ⟨ts₁ ++ ts₂, ⟨ts₁, ts₂, rfl, ?_, ?_⟩, hkept⟩ <;> cases stage <;> trivial

theorem Reads.run_items (h : s.Reads ts) (items : List Item) :
    ∃ ts', (items.foldl State.feed s).Reads ts' ∧ List.Sublist (ts'.map .token) (ts.map .token ++ items) := by
  induction items generalizing s ts with
  | nil => exact ⟨ts, h, List.sublist_append_left _ _⟩
  | cons item items ih =>
    obtain ⟨ts₁, h₁, hs₁⟩ := h.feed_item item
    obtain ⟨ts₂, h₂, hs₂⟩ := ih h₁
    refine ⟨ts₂, h₂, hs₂.trans ?_⟩
    rw [List.append_cons]
    exact hs₁.append_right items

end State

namespace StatementsRead
variable {ss : List Statement} {ts : List Token}

theorem script (h : StatementsRead ss ts) (d : Script) (hd : d.Valid) : ∃ d' : Script,
    d'.tokens = ts ++ d.tokens ∧ d'.Valid ∧ d'.statements = ss.reverse ++ d.statements := by
  induction h generalizing d with
  | nil => exact ⟨d, rfl, hd, rfl⟩
  | snoc _ hs semicolon ih =>
    obtain ⟨s, rfl, rfl, hv⟩ := hs
    obtain ⟨d', h1, h2, h3⟩ := ih (.next s semicolon d) (List.forall_mem_cons.2 ⟨hv, hd⟩)
    refine ⟨d', by simp [h1], h2, ?_⟩
    rw [h3, List.reverse_cons, List.append_assoc]
    rfl

theorem sound (h : StatementsRead ss ts) {s : Statement} (hs : s ∈ ss) :
    ∃ ts', Says ts' s ∧ List.Sublist ts' ts := by
  induction h with
  | nil => cases hs
  | @snoc ss s' ts ts' _ hs' _ ih =>
    rcases List.mem_cons.1 hs with rfl | hs
    · exact ⟨ts', hs', (List.sublist_append_left _ _).trans (List.sublist_append_right _ _)⟩
    · obtain ⟨ts₁, h1, h2⟩ := ih hs
      exact ⟨ts₁, h1, h2.trans (List.sublist_append_left _ _)⟩

end StatementsRead

/-! ### The end of the input -/

/-- Whether no token changes the stage any more. -/
def Stage.isFinal : Stage → Bool
  | .ended _ | .failed _ => true
  | _ => false

section
variable {t : Token} (h : t.kind = .eof)
include h

theorem isFinal_expect {kind : Kind} {next : Stage} (hk : kind ≠ .eof) :
    (expect kind t next).isFinal := by
  rw [expect, h, if_neg hk.symm]
  rfl

theorem isFinal_expressionAt (stack : List Frame) : (expressionAt stack t).isFinal := by
  simp [expressionAt, h, fail, Stage.isFinal]

theorem isFinal_endStatement (s : Statement) (problem : Lexeme → Problem) :
    (endStatement s t problem).isFinal := by
  simp [endStatement, h, Stage.isFinal]

theorem isFinal_delimit (e : Expr) (stack : List Frame) : (delimit e t stack).isFinal := by
  unfold delimit
  split
  all_goals first
    | exact isFinal_expect h (by decide)
    | exact isFinal_endStatement h _ _
    | rw [h]; exact isFinal_expect h (by decide)

theorem isFinal_operatorAt (e : Expr) (stack : List Frame) : (operatorAt e stack t).isFinal := by
  have hop : t.operator? = none := by simp [Token.operator?, h]
  rw [operatorAt, hop]
  simp only [h]
  exact isFinal_delimit h _ _

theorem Stage.isFinal_step (stage : Stage) : (stage.step t).isFinal := by
  cases stage with
  | start | separated => simp [step, statementAt, h, isFinal]
  | expression stack => exact isFinal_expressionAt h stack
  | operand stack => simp [step, operandAt, h, fail, isFinal]
  | operator e stack => exact isFinal_operatorAt h e stack
  | ident pos name stack =>
    simp only [step, h]
    exact isFinal_operatorAt h _ _
  | arguments pos name stack =>
    simp only [step, h]
    exact isFinal_expressionAt h _
  | bindName | bindAssign | defName | defOpen | defParam | defAssign =>
    exact isFinal_expect h (by decide)
  | defParams =>
    simp only [step, h]
    exact isFinal_expect h (by decide)
  | defComma pos name params param paramPos =>
    rw [step]
    split
    · rfl
    · simp only [h]
      exact isFinal_expect h (by decide)
  | ended | failed => rfl

/-- A parse that takes the end of the input has ended. -/
theorem State.exists_ended {s : State} (hs : (s.feed (.token t)).program.fault = none) :
    ∃ x, (s.feed (.token t)).stage = .ended x := by
  have hf := Stage.isFinal_step h s.stage
  rw [← stage_feed_token] at hf
  generalize s.feed (.token t) = s' at hs hf
  obtain ⟨statements, stage⟩ := s'
  cases stage with
  | ended x => exact ⟨x, rfl⟩
  | failed => cases hs
  | _ => cases hf

end

end Parse

namespace Program
open Parse

/-- A statement of a program is what tokens of its source say, in their order, whether or not the source goes
wrong further on. -/
theorem exists_sublist_of_mem {items : List Item} {s : Statement} (h : s ∈ (ofItems items).statements) :
    ∃ ts, Says ts s ∧ List.Sublist (ts.map .token) items := by
  obtain ⟨ts, ⟨ts₁, ts₂, rfl, hd, hr⟩, hsub⟩ := State.reads_initial.run_items items
  have of_sublist {ts : List Token} (hs : Says ts s) (hts : List.Sublist ts (ts₁ ++ ts₂)) :
      ∃ ts, Says ts s ∧ List.Sublist (ts.map .token) items := ⟨ts, hs, (hts.map _).trans hsub⟩
  have of_read (hs : s ∈ (items.foldl State.feed State.initial).statements) :
      ∃ ts, Says ts s ∧ List.Sublist (ts.map .token) items := by
    obtain ⟨ts, h1, h2⟩ := hd.sound hs
    exact of_sublist h1 (h2.trans (List.sublist_append_left _ _))
  rw [ofItems, State.program] at h
  split at h
  · next x heq =>
    rcases List.mem_cons.1 (List.mem_reverse.1 h) with rfl | hs
    · rw [heq] at hr
      obtain ⟨ts₃, eof, rfl, hs⟩ := hr
      exact of_sublist hs ((List.sublist_append_left _ _).trans (List.sublist_append_right _ _))
    · exact of_read hs
  · exact of_read (List.mem_reverse.1 h)
  · exact of_read (List.mem_reverse.1 h)

theorem exists_tokens_of_mem {items : List Item} {s : Statement} (h : s ∈ (ofItems items).statements) :
    ∃ ts, Says ts s ∧ ∀ t ∈ ts, .token t ∈ items := by
  obtain ⟨ts, hs, hsub⟩ := exists_sublist_of_mem h
  exact ⟨ts, hs, fun t ht => hsub.subset (List.mem_map_of_mem ht)⟩

/-- Tokens that parse are those of a script. -/
theorem exists_script {ts : List Token} {trees : List Statement} (hts : ∀ t ∈ ts, t.kind ≠ .eof)
    (eof : Terminal [.eof]) (h : ofItems ((ts ++ [eof.1]).map .token) = ⟨trees, none⟩) :
    ∃ d : Script, d.tokens = ts ++ [eof.1] ∧ d.Valid ∧ d.statements = trees := by
  have hr : ((ts.map Item.token).foldl State.feed State.initial).Reads ts :=
    State.reads_initial.run (by simpa using hts)
  obtain ⟨ts₁, ts₂, hts, hd, hr⟩ := hr.feed (t := eof.1) (hr.not_ended hts)
  rw [ofItems, List.map_append, List.foldl_append] at h
  change (State.feed _ (.token eof.1)).program = _ at h
  obtain ⟨x, hx⟩ := State.exists_ended eof.kind_eq (congrArg Program.fault h)
  rw [hts]
  generalize State.feed _ (.token eof.1) = s at h hd hr hx
  obtain ⟨statements, stage⟩ := s
  cases hx
  cases x with
  | none =>
    obtain ⟨eof, rfl⟩ := hr
    obtain ⟨d, h1, h2, h3⟩ := hd.script (.done eof) (by simp [Script.Valid])
    cases h
    exact ⟨d, h1, h2, by simpa [Script.statements] using h3⟩
  | some x =>
    obtain ⟨ts₃, eof, rfl, sentence, rfl, rfl, hv⟩ := hr
    obtain ⟨d, h1, h2, h3⟩ := hd.script (.last sentence eof) (List.forall_mem_singleton.2 hv)
    cases h
    exact ⟨d, h1, h2, by rw [h3, List.reverse_cons]; rfl⟩

end Program

end Octal
