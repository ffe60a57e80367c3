import Octal.Proofs.Grammar

/-!
# The grammar is unambiguous

One token decides everything: which alternative a phrase takes shows in its first token
(`Category.starts`), and whether a finished phrase goes on shows in the token after it
(`Category.continues`). So of two derivations whose tokens agree, each followed by a token that
cannot go on with it, neither can be longer than the other, and they are the same
(`Phrase.append_inj`). A script carries its own end, so there the tokens alone decide
(`Script.tokens_inj`).
-/

namespace Octal

namespace Terminal
variable {ks ks' : List Kind}

theorem ne (t : Terminal ks) (t' : Terminal ks') (h : ∀ k ∈ ks, k ∉ ks') : t.1 ≠ t'.1 :=
  fun e => h _ t.2 (e ▸ t'.2)

end Terminal

namespace Grammar

/-- The kinds of the first token of a phrase. -/
def Category.starts : Category → List Kind
  | .level .expression | .arguments => [.kwLet, .kwIf, .minus, .number, .ident, .openParen]
  | .sumTail => [.plus, .minus]
  | .productTail => [.times, .divide, .modulo]
  | .level .primary => [.number, .ident, .openParen]
  | .level _ => [.minus, .number, .ident, .openParen]

/-- The kinds of token that go on with a phrase that could already be complete. -/
def Category.continues : Category → List Kind
  | .level .primary | .level .unary => [.openParen]
  | .level .power => [.openParen, .power]
  | .level .product | .productTail => [.openParen, .power, .times, .divide, .modulo]
  | .level .sum | .sumTail => [.openParen, .power, .times, .divide, .modulo, .plus, .minus]
  | .level .comparison | .level .expression =>
    [.openParen, .power, .times, .divide, .modulo, .plus, .minus, .compare]
  | .arguments => [.openParen, .power, .times, .divide, .modulo, .plus, .minus, .compare, .comma]

/-- No phrase of the category `c` goes on into `ts`. -/
def Stops (c : Category) : List Token → Prop
  | [] => True
  | t :: _ => t.kind ∉ c.continues

namespace Stops
variable {c c' : Category} {ts : List Token} {ks : List Kind}

theorem mono (h : Stops c' ts) (hc : ∀ k ∈ c.continues, k ∈ c'.continues) : Stops c ts := by
  cases ts with
  | nil => trivial
  | cons t ts => exact fun ht => h (hc _ ht)

theorem of_terminal (t : Terminal ks) (h : ∀ k ∈ ks, k ∉ c.continues) : Stops c (t.1 :: ts) :=
  h _ t.2

theorem not_of_terminal (t : Terminal ks) (h : ∀ k ∈ ks, k ∈ c.continues) :
    ¬ Stops c (t.1 :: ts) :=
  fun hs => hs (h _ t.2)

end Stops

namespace Phrase
variable {c : Category}

/-- Only a repetition can be empty; every other phrase has a first token. -/
theorem exists_start (p : Phrase c) (hs : c ≠ .sumTail) (hp : c ≠ .productTail) :
    ∃ (t : Terminal c.starts) (ts : List Token), p.tokens = t.1 :: ts := by
  induction p with
  | letIn t | ifElse t | neg t | numeral t | ident t | callNil t | call t | group t =>
    exact ⟨⟨t.1, by simp [Category.starts]⟩, _, rfl⟩
  | ofComparison _ ih | ofSum _ ih | ofUnary _ ih | ofPrimary _ ih | argLast _ ih =>
    obtain ⟨t, ts, h⟩ := ih (by decide) (by decide)
    have ht := t.2
    simp only [Category.starts, List.mem_cons] at ht ⊢
    exact ⟨⟨t.1, by grind⟩, ts, h⟩
  | compare _ _ _ ih | sum _ _ ih | product _ _ ih | power _ _ _ ih | argCons _ _ _ ih =>
    obtain ⟨t, ts, h⟩ := ih (by decide) (by decide)
    have ht := t.2
    simp only [Category.starts, List.mem_cons] at ht ⊢
    exact ⟨⟨t.1, by grind⟩, _, by rw [tokens, h, List.cons_append]⟩
  | sumNil | sumCons => exact absurd rfl hs
  | productNil | productCons => exact absurd rfl hp

/-- A phrase does not begin with a token of the kinds `ks`. -/
theorem append_ne {ks : List Kind} (p : Phrase c) (t : Terminal ks) {r r' : List Token}
    (hs : c ≠ .sumTail) (hp : c ≠ .productTail) (h : ∀ k ∈ ks, k ∉ c.starts) :
    p.tokens ++ r ≠ t.1 :: r' := by
  obtain ⟨t', ts, ht⟩ := p.exists_start hs hp
  rw [ht]
  exact fun e => t.ne t' h (List.cons.inj e).1.symm

/-- `p` is the only phrase of its category at the front of its tokens, wherever both could end. -/
def Sole (p : Phrase c) : Prop :=
  ∀ (p' : Phrase c) {r r' : List Token}, p.tokens ++ r = p'.tokens ++ r' → Stops c r → Stops c r' →
    p = p' ∧ r = r'

end Phrase

namespace Phrase.Sole

theorem letIn {kwLet name assign value kwIn body} (hv : Sole value) (hb : Sole body) :
    Sole (.letIn kwLet name assign value kwIn body) := by
  intro p' r r' h hr hr'
  cases p' with
  | letIn kwLet' name' assign' value' kwIn' body' =>
    simp only [tokens, List.cons_append, List.append_assoc, List.cons.injEq] at h
    obtain ⟨h1, h2, h3, h4⟩ := h
    obtain ⟨rfl, h5⟩ := hv value' h4 (.of_terminal kwIn (by decide)) (.of_terminal kwIn' (by decide))
    obtain ⟨h6, h7⟩ := List.cons.inj h5
    obtain ⟨rfl, rfl⟩ := hb body' h7 hr hr'
    rw [Subtype.ext h1, Subtype.ext h2, Subtype.ext h3, Subtype.ext h6]
    exact ⟨rfl, rfl⟩
  | ifElse kwIf' => exact absurd (List.cons.inj h).1 (kwLet.ne kwIf' (by decide))
  | ofComparison c' => exact absurd h.symm (c'.append_ne kwLet (by decide) (by decide) (by decide))

theorem ifElse {kwIf test kwThen whenTrue kwElse whenFalse} (hc : Sole test) (ht : Sole whenTrue)
    (hf : Sole whenFalse) : Sole (.ifElse kwIf test kwThen whenTrue kwElse whenFalse) := by
  intro p' r r' h hr hr'
  cases p' with
  | letIn kwLet' => exact absurd (List.cons.inj h).1 (kwIf.ne kwLet' (by decide))
  | ifElse kwIf' test' kwThen' whenTrue' kwElse' whenFalse' =>
    simp only [tokens, List.cons_append, List.append_assoc, List.cons.injEq] at h
    obtain ⟨h1, h2⟩ := h
    obtain ⟨rfl, h3⟩ := hc test' h2 (.of_terminal kwThen (by decide)) (.of_terminal kwThen' (by decide))
    obtain ⟨h4, h5⟩ := List.cons.inj h3
    obtain ⟨rfl, h6⟩ :=
      ht whenTrue' h5 (.of_terminal kwElse (by decide)) (.of_terminal kwElse' (by decide))
    obtain ⟨h7, h8⟩ := List.cons.inj h6
    obtain ⟨rfl, rfl⟩ := hf whenFalse' h8 hr hr'
    rw [Subtype.ext h1, Subtype.ext h4, Subtype.ext h7]
    exact ⟨rfl, rfl⟩
  | ofComparison c' => exact absurd h.symm (c'.append_ne kwIf (by decide) (by decide) (by decide))

theorem ofComparison {c} (hc : Sole c) : Sole (.ofComparison c) := by
  intro p' r r' h hr hr'
  cases p' with
  | letIn kwLet' => exact absurd h (c.append_ne kwLet' (by decide) (by decide) (by decide))
  | ifElse kwIf' => exact absurd h (c.append_ne kwIf' (by decide) (by decide) (by decide))
  | ofComparison c' =>
    obtain ⟨rfl, rfl⟩ := hc c' h hr hr'
    exact ⟨rfl, rfl⟩

theorem ofSum {s} (hs : Sole s) : Sole (.ofSum s) := by
  intro p' r r' h hr hr'
  cases p' with
  | ofSum s' =>
    obtain ⟨rfl, rfl⟩ := hs s' h (hr.mono (by decide)) (hr'.mono (by decide))
    exact ⟨rfl, rfl⟩
  | compare left' op' right' =>
    simp only [tokens, List.cons_append, List.append_assoc] at h
    obtain ⟨rfl, rfl⟩ := hs left' h (hr.mono (by decide)) (.of_terminal op' (by decide))
    exact absurd hr (Stops.not_of_terminal op' (by decide))

theorem compare {left op right} (hl : Sole left) (hs : Sole right) :
    Sole (.compare left op right) := by
  intro p' r r' h hr hr'
  cases p' with
  | ofSum s' =>
    simp only [tokens, List.cons_append, List.append_assoc] at h
    obtain ⟨rfl, rfl⟩ := hl s' h (.of_terminal op (by decide)) (hr'.mono (by decide))
    exact absurd hr' (Stops.not_of_terminal op (by decide))
  | compare left' op' right' =>
    simp only [tokens, List.cons_append, List.append_assoc] at h
    obtain ⟨rfl, h1⟩ := hl left' h (.of_terminal op (by decide)) (.of_terminal op' (by decide))
    obtain ⟨h2, h3⟩ := List.cons.inj h1
    obtain ⟨rfl, rfl⟩ := hs right' h3 (hr.mono (by decide)) (hr'.mono (by decide))
    rw [Subtype.ext h2]
    exact ⟨rfl, rfl⟩

/-- A repetition, even an empty one, does not go on with the operand before it. -/
theorem stops_sumTail {rest : Phrase .sumTail} {r : List Token} (hr : Stops .sumTail r) :
    Stops Level.product (rest.tokens ++ r) := by
  cases rest with
  | sumNil => exact hr.mono (by decide)
  | sumCons op => exact .of_terminal op (by decide)

theorem sum {first rest} (hf : Sole first) (hs : Sole rest) : Sole (.sum first rest) := by
  intro p' r r' h hr hr'
  cases p' with
  | sum first' rest' =>
    simp only [tokens, List.append_assoc] at h
    obtain ⟨rfl, h1⟩ := hf first' h (stops_sumTail hr) (stops_sumTail hr')
    obtain ⟨rfl, rfl⟩ := hs rest' h1 hr hr'
    exact ⟨rfl, rfl⟩

theorem sumNil : Sole .sumNil := by
  intro p' r r' h hr hr'
  cases p' with
  | sumNil => exact ⟨rfl, h⟩
  | sumCons op' operand' rest' =>
    simp only [tokens, List.nil_append, List.cons_append] at h
    exact absurd (h ▸ hr) (Stops.not_of_terminal op' (by decide))

theorem sumCons {op operand rest} (ho : Sole operand) (hs : Sole rest) :
    Sole (.sumCons op operand rest) := by
  intro p' r r' h hr hr'
  cases p' with
  | sumNil =>
    simp only [tokens, List.nil_append, List.cons_append] at h
    exact absurd (h ▸ hr') (Stops.not_of_terminal op (by decide))
  | sumCons op' operand' rest' =>
    simp only [tokens, List.cons_append, List.append_assoc, List.cons.injEq] at h
    obtain ⟨h1, h2⟩ := h
    obtain ⟨rfl, h3⟩ := ho operand' h2 (stops_sumTail hr) (stops_sumTail hr')
    obtain ⟨rfl, rfl⟩ := hs rest' h3 hr hr'
    rw [Subtype.ext h1]
    exact ⟨rfl, rfl⟩

theorem stops_productTail {rest : Phrase .productTail} {r : List Token} (hr : Stops .productTail r) :
    Stops Level.power (rest.tokens ++ r) := by
  cases rest with
  | productNil => exact hr.mono (by decide)
  | productCons op => exact .of_terminal op (by decide)

theorem product {first rest} (hf : Sole first) (hs : Sole rest) : Sole (.product first rest) := by
  intro p' r r' h hr hr'
  cases p' with
  | product first' rest' =>
    simp only [tokens, List.append_assoc] at h
    obtain ⟨rfl, h1⟩ := hf first' h (stops_productTail hr) (stops_productTail hr')
    obtain ⟨rfl, rfl⟩ := hs rest' h1 hr hr'
    exact ⟨rfl, rfl⟩

theorem productNil : Sole .productNil := by
  intro p' r r' h hr hr'
  cases p' with
  | productNil => exact ⟨rfl, h⟩
  | productCons op' operand' rest' =>
    simp only [tokens, List.nil_append, List.cons_append] at h
    exact absurd (h ▸ hr) (Stops.not_of_terminal op' (by decide))

theorem productCons {op operand rest} (ho : Sole operand) (hs : Sole rest) :
    Sole (.productCons op operand rest) := by
  intro p' r r' h hr hr'
  cases p' with
  | productNil =>
    simp only [tokens, List.nil_append, List.cons_append] at h
    exact absurd (h ▸ hr') (Stops.not_of_terminal op (by decide))
  | productCons op' operand' rest' =>
    simp only [tokens, List.cons_append, List.append_assoc, List.cons.injEq] at h
    obtain ⟨h1, h2⟩ := h
    obtain ⟨rfl, h3⟩ := ho operand' h2 (stops_productTail hr) (stops_productTail hr')
    obtain ⟨rfl, rfl⟩ := hs rest' h3 hr hr'
    rw [Subtype.ext h1]
    exact ⟨rfl, rfl⟩

theorem ofUnary {u} (hu : Sole u) : Sole (.ofUnary u) := by
  intro p' r r' h hr hr'
  cases p' with
  | ofUnary u' =>
    obtain ⟨rfl, rfl⟩ := hu u' h (hr.mono (by decide)) (hr'.mono (by decide))
    exact ⟨rfl, rfl⟩
  | power base' op' exponent' =>
    simp only [tokens, List.cons_append, List.append_assoc] at h
    obtain ⟨rfl, rfl⟩ := hu base' h (hr.mono (by decide)) (.of_terminal op' (by decide))
    exact absurd hr (Stops.not_of_terminal op' (by decide))

theorem power {base op exponent} (hb : Sole base) (he : Sole exponent) :
    Sole (.power base op exponent) := by
  intro p' r r' h hr hr'
  cases p' with
  | ofUnary u' =>
    simp only [tokens, List.cons_append, List.append_assoc] at h
    obtain ⟨rfl, rfl⟩ := hb u' h (.of_terminal op (by decide)) (hr'.mono (by decide))
    exact absurd hr' (Stops.not_of_terminal op (by decide))
  | power base' op' exponent' =>
    simp only [tokens, List.cons_append, List.append_assoc] at h
    obtain ⟨rfl, h1⟩ := hb base' h (.of_terminal op (by decide)) (.of_terminal op' (by decide))
    obtain ⟨h2, h3⟩ := List.cons.inj h1
    obtain ⟨rfl, rfl⟩ := he exponent' h3 hr hr'
    rw [Subtype.ext h2]
    exact ⟨rfl, rfl⟩

theorem neg {minus operand} (ho : Sole operand) : Sole (.neg minus operand) := by
  intro p' r r' h hr hr'
  cases p' with
  | neg minus' operand' =>
    obtain ⟨h1, h2⟩ := List.cons.inj h
    obtain ⟨rfl, rfl⟩ := ho operand' h2 hr hr'
    rw [Subtype.ext h1]
    exact ⟨rfl, rfl⟩
  | ofPrimary p' => exact absurd h.symm (p'.append_ne minus (by decide) (by decide) (by decide))

theorem ofPrimary {p} (hp : Sole p) : Sole (.ofPrimary p) := by
  intro p' r r' h hr hr'
  cases p' with
  | neg minus' => exact absurd h (p.append_ne minus' (by decide) (by decide) (by decide))
  | ofPrimary p' =>
    obtain ⟨rfl, rfl⟩ := hp p' h hr hr'
    exact ⟨rfl, rfl⟩

theorem numeral {t} : Sole (.numeral t) := by
  intro p' r r' h hr hr'
  cases p' with
  | numeral t' =>
    obtain ⟨h1, h2⟩ := List.cons.inj h
    rw [Subtype.ext h1]
    exact ⟨rfl, h2⟩
  | ident t' | callNil t' | call t' | group t' =>
    exact absurd (List.cons.inj h).1 (t.ne t' (by decide))

theorem ident {name} : Sole (.ident name) := by
  intro p' r r' h hr hr'
  cases p' with
  | numeral t' | group t' => exact absurd (List.cons.inj h).1 (name.ne t' (by decide))
  | ident name' =>
    obtain ⟨h1, h2⟩ := List.cons.inj h
    rw [Subtype.ext h1]
    exact ⟨rfl, h2⟩
  | callNil name' openParen' | call name' openParen' =>
    simp only [tokens, List.cons_append, List.nil_append, List.cons.injEq] at h
    exact absurd (h.2 ▸ hr) (Stops.not_of_terminal openParen' (by decide))

theorem callNil {name openParen closeParen} : Sole (.callNil name openParen closeParen) := by
  intro p' r r' h hr hr'
  cases p' with
  | numeral t' | group t' => exact absurd (List.cons.inj h).1 (name.ne t' (by decide))
  | ident name' =>
    simp only [tokens, List.cons_append, List.nil_append, List.cons.injEq] at h
    exact absurd (h.2 ▸ hr') (Stops.not_of_terminal openParen (by decide))
  | callNil name' openParen' closeParen' =>
    simp only [tokens, List.cons_append, List.nil_append, List.cons.injEq] at h
    obtain ⟨h1, h2, h3, rfl⟩ := h
    rw [Subtype.ext h1, Subtype.ext h2, Subtype.ext h3]
    exact ⟨rfl, rfl⟩
  | call name' openParen' args' closeParen' =>
    simp only [tokens, List.cons_append, List.nil_append, List.append_assoc, List.cons.injEq] at h
    exact absurd h.2.2.symm (args'.append_ne closeParen (by decide) (by decide) (by decide))

theorem call {name openParen args closeParen} (ha : Sole args) :
    Sole (.call name openParen args closeParen) := by
  intro p' r r' h hr hr'
  cases p' with
  | numeral t' | group t' => exact absurd (List.cons.inj h).1 (name.ne t' (by decide))
  | ident name' =>
    simp only [tokens, List.cons_append, List.nil_append, List.cons.injEq] at h
    exact absurd (h.2 ▸ hr') (Stops.not_of_terminal openParen (by decide))
  | callNil name' openParen' closeParen' =>
    simp only [tokens, List.cons_append, List.nil_append, List.append_assoc, List.cons.injEq] at h
    exact absurd h.2.2 (args.append_ne closeParen' (by decide) (by decide) (by decide))
  | call name' openParen' args' closeParen' =>
    simp only [tokens, List.cons_append, List.nil_append, List.append_assoc, List.cons.injEq] at h
    obtain ⟨h1, h2, h3⟩ := h
    obtain ⟨rfl, h4⟩ :=
      ha args' h3 (.of_terminal closeParen (by decide)) (.of_terminal closeParen' (by decide))
    obtain ⟨h5, rfl⟩ := List.cons.inj h4
    rw [Subtype.ext h1, Subtype.ext h2, Subtype.ext h5]
    exact ⟨rfl, rfl⟩

theorem group {openParen e closeParen} (he : Sole e) : Sole (.group openParen e closeParen) := by
  intro p' r r' h hr hr'
  cases p' with
  | numeral t' | ident t' | callNil t' | call t' =>
    exact absurd (List.cons.inj h).1 (openParen.ne t' (by decide))
  | group openParen' e' closeParen' =>
    simp only [tokens, List.cons_append, List.nil_append, List.append_assoc, List.cons.injEq] at h
    obtain ⟨h1, h2⟩ := h
    obtain ⟨rfl, h3⟩ :=
      he e' h2 (.of_terminal closeParen (by decide)) (.of_terminal closeParen' (by decide))
    obtain ⟨h4, rfl⟩ := List.cons.inj h3
    rw [Subtype.ext h1, Subtype.ext h4]
    exact ⟨rfl, rfl⟩

theorem argLast {e} (he : Sole e) : Sole (.argLast e) := by
  intro p' r r' h hr hr'
  cases p' with
  | argLast e' =>
    obtain ⟨rfl, rfl⟩ := he e' h (hr.mono (by decide)) (hr'.mono (by decide))
    exact ⟨rfl, rfl⟩
  | argCons e' comma' rest' =>
    simp only [tokens, List.cons_append, List.append_assoc] at h
    obtain ⟨rfl, rfl⟩ := he e' h (hr.mono (by decide)) (.of_terminal comma' (by decide))
    exact absurd hr (Stops.not_of_terminal comma' (by decide))

theorem argCons {e comma rest} (he : Sole e) (hs : Sole rest) : Sole (.argCons e comma rest) := by
  intro p' r r' h hr hr'
  cases p' with
  | argLast e' =>
    simp only [tokens, List.cons_append, List.append_assoc] at h
    obtain ⟨rfl, rfl⟩ := he e' h (.of_terminal comma (by decide)) (hr'.mono (by decide))
    exact absurd hr' (Stops.not_of_terminal comma (by decide))
  | argCons e' comma' rest' =>
    simp only [tokens, List.cons_append, List.append_assoc] at h
    obtain ⟨rfl, h1⟩ := he e' h (.of_terminal comma (by decide)) (.of_terminal comma' (by decide))
    obtain ⟨h2, h3⟩ := List.cons.inj h1
    obtain ⟨rfl, rfl⟩ := hs rest' h3 hr hr'
    rw [Subtype.ext h2]
    exact ⟨rfl, rfl⟩

end Phrase.Sole

theorem Phrase.sole {c : Category} (p : Phrase c) : p.Sole := by
  induction p with
  | letIn _ _ _ _ _ _ hv hb => exact .letIn hv hb
  | ifElse _ _ _ _ _ _ hc ht hf => exact .ifElse hc ht hf
  | ofComparison _ hc => exact .ofComparison hc
  | ofSum _ hs => exact .ofSum hs
  | compare _ _ _ hl hr => exact .compare hl hr
  | sum _ _ hf hr => exact .sum hf hr
  | sumNil => exact .sumNil
  | sumCons _ _ _ ho hr => exact .sumCons ho hr
  | product _ _ hf hr => exact .product hf hr
  | productNil => exact .productNil
  | productCons _ _ _ ho hr => exact .productCons ho hr
  | ofUnary _ hu => exact .ofUnary hu
  | power _ _ _ hb he => exact .power hb he
  | neg _ _ ho => exact .neg ho
  | ofPrimary _ hp => exact .ofPrimary hp
  | numeral => exact .numeral
  | ident => exact .ident
  | callNil => exact .callNil
  | call _ _ _ _ ha => exact .call ha
  | group _ _ _ he => exact .group he
  | argLast _ he => exact .argLast he
  | argCons _ _ _ he hr => exact .argCons he hr

namespace Parameters

theorem append_inj {ps ps' : Parameters} {r r' : List Token} {t t' : Terminal [.closeParen]}
    (h : ps.tokens ++ t.1 :: r = ps'.tokens ++ t'.1 :: r') : ps = ps' ∧ t = t' ∧ r = r' := by
  have go : ∀ l l' : List (Terminal [.comma] × Terminal [.ident]),
      (l.flatMap fun p => [p.1.1, p.2.1]) ++ t.1 :: r =
        (l'.flatMap fun p => [p.1.1, p.2.1]) ++ t'.1 :: r' → l = l' ∧ t.1 :: r = t'.1 :: r' := by
    intro l
    induction l with
    | nil =>
      intro l' h
      cases l' with
      | nil => exact ⟨rfl, h⟩
      | cons p' l' => exact absurd (List.cons.inj h).1 (t.ne p'.1 (by decide))
    | cons p l ih =>
      intro l' h
      cases l' with
      | nil => exact absurd (List.cons.inj h).1 (p.1.ne t' (by decide))
      | cons p' l' =>
        simp only [List.flatMap_cons, List.cons_append, List.nil_append, List.cons.injEq] at h
        obtain ⟨h1, h2, h3⟩ := h
        obtain ⟨rfl, h4⟩ := ih l' h3
        exact ⟨by rw [Prod.ext (Subtype.ext h1) (Subtype.ext h2)], h4⟩
  cases ps with
  | none =>
    cases ps' with
    | none =>
      obtain ⟨h1, h2⟩ := List.cons.inj h
      exact ⟨rfl, Subtype.ext h1, h2⟩
    | names first' => exact absurd (List.cons.inj h).1 (t.ne first' (by decide))
  | names first rest =>
    cases ps' with
    | none => exact absurd (List.cons.inj h).1 (first.ne t' (by decide))
    | names first' rest' =>
      obtain ⟨h1, h2⟩ := List.cons.inj h
      obtain ⟨rfl, h3⟩ := go rest rest' h2
      obtain ⟨h4, h5⟩ := List.cons.inj h3
      exact ⟨by rw [Subtype.ext h1], Subtype.ext h4, h5⟩

end Parameters

namespace Sentence

theorem append_ne {ks : List Kind} (s : Sentence) (t : Terminal ks) {r r' : List Token}
    (h : ∀ k ∈ ks, k ∉ Category.starts Level.expression ∧ k ≠ .kwDef) : s.tokens ++ r ≠ t.1 :: r' := by
  cases s with
  | define kwDef =>
    intro e
    refine t.ne kwDef (fun k hk => ?_) (List.cons.inj e).1.symm
    simpa using (h k hk).2
  | eval e => exact e.append_ne t (by decide) (by decide) fun k hk => (h k hk).1

/-- Sentences end where no expression goes on, which is what semicolons and the end have in common. -/
theorem append_inj {s s' : Sentence} {r r' : List Token} (h : s.tokens ++ r = s'.tokens ++ r')
    (hr : Stops Level.expression r) (hr' : Stops Level.expression r') : s = s' ∧ r = r' := by
  cases s with
  | define kwDef name openParen params closeParen assign body =>
    cases s' with
    | define kwDef' name' openParen' params' closeParen' assign' body' =>
      simp only [tokens, List.cons_append, List.append_assoc, List.cons.injEq] at h
      obtain ⟨h1, h2, h3, h4⟩ := h
      obtain ⟨rfl, rfl, h5⟩ := Parameters.append_inj h4
      obtain ⟨h6, h7⟩ := List.cons.inj h5
      obtain ⟨rfl, rfl⟩ := body.sole body' h7 hr hr'
      rw [Subtype.ext h1, Subtype.ext h2, Subtype.ext h3, Subtype.ext h6]
      exact ⟨rfl, rfl⟩
    | eval e' => exact absurd h.symm (e'.append_ne kwDef (by decide) (by decide) (by decide))
  | eval e =>
    cases s' with
    | define kwDef' => exact absurd h (e.append_ne kwDef' (by decide) (by decide) (by decide))
    | eval e' =>
      obtain ⟨rfl, rfl⟩ := e.sole e' h hr hr'
      exact ⟨rfl, rfl⟩

end Sentence

/-- A script has one derivation. -/
theorem Script.tokens_inj : ∀ {d d' : Script}, d.tokens = d'.tokens → d = d'
  | done eof, done eof', h => by rw [Subtype.ext (List.cons.inj h).1]
  | done eof, last s' eof', h => absurd h.symm (s'.append_ne eof (by decide))
  | done eof, next s' semicolon' rest', h => absurd h.symm (s'.append_ne eof (by decide))
  | last s eof, done eof', h => absurd h (s.append_ne eof' (by decide))
  | last s eof, last s' eof', h => by
    obtain ⟨rfl, h1⟩ :=
      Sentence.append_inj h (.of_terminal eof (by decide)) (.of_terminal eof' (by decide))
    rw [Subtype.ext (List.cons.inj h1).1]
  | last s eof, next s' semicolon' rest', h => by
    obtain ⟨rfl, h1⟩ :=
      Sentence.append_inj h (.of_terminal eof (by decide)) (.of_terminal semicolon' (by decide))
    exact absurd (List.cons.inj h1).1 (eof.ne semicolon' (by decide))
  | next s semicolon rest, done eof', h => absurd h (s.append_ne eof' (by decide))
  | next s semicolon rest, last s' eof', h => by
    obtain ⟨rfl, h1⟩ :=
      Sentence.append_inj h (.of_terminal semicolon (by decide)) (.of_terminal eof' (by decide))
    exact absurd (List.cons.inj h1).1 (semicolon.ne eof' (by decide))
  | next s semicolon rest, next s' semicolon' rest', h => by
    obtain ⟨rfl, h1⟩ := Sentence.append_inj h (.of_terminal semicolon (by decide))
      (.of_terminal semicolon' (by decide))
    obtain ⟨h2, h3⟩ := List.cons.inj h1
    rw [Subtype.ext h2, tokens_inj h3]

end Grammar

end Octal
