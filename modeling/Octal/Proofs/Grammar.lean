import Octal.Statement.Parse

/-!
# The grammar

The grammar of statements as a type of derivations. `Phrase c` has one constructor for each
alternative of the category `c`; a phrase holds the tokens it was derived from, keywords and
punctuation included, so two derivations of the same tokens are the same phrase or the grammar is
ambiguous. `Phrase.tokens` reads the tokens off a derivation, `Phrase.meaning` the tree it denotes.

    expression  := 'LET' IDENT '=' expression 'IN' expression
                 | 'IF' expression 'THEN' expression 'ELSE' expression
                 | comparison
    comparison  := sum [COMPARE sum]
    sum         := product {('+' | '-') product}
    product     := power {('*' | '/' | '%') power}
    power       := unary ['^' power]
    unary       := '-' unary | primary
    primary     := NUMBER | IDENT | IDENT '(' [arguments] ')' | '(' expression ')'
    arguments   := expression {',' expression}

A repetition is a category of its own (`sumTail`, `productTail`): it denotes what it makes of the
operand to its left, which is why sums and products group to the left.
-/

namespace Octal

/-- A token of one of the kinds `ks`. -/
abbrev Terminal (ks : List Kind) := { t : Token // t.kind ∈ ks }

@[simp] theorem Terminal.kind_eq {k : Kind} (t : Terminal [k]) : t.1.kind = k :=
  List.mem_singleton.1 t.2

namespace Grammar

/-- The levels of an expression, tightest first. A phrase of one level is also one of each level after
it, up to the rules that only pass it on. -/
inductive Level where
  | primary
  | unary
  | power
  | product
  | sum
  | comparison
  | expression
deriving DecidableEq

inductive Category where
  | level (l : Level)
  | sumTail
  | productTail
  | arguments
deriving DecidableEq

instance : Coe Level Category := ⟨.level⟩

/-- What a phrase of the category denotes. -/
abbrev Category.Meaning : Category → Type
  | .level _ => Expr
  | .sumTail | .productTail => Expr → Expr
  | .arguments => List Expr

open Level in
inductive Phrase : Category → Type where
  | letIn (kwLet : Terminal [.kwLet]) (name : Terminal [.ident]) (assign : Terminal [.assign])
      (value : Phrase expression) (kwIn : Terminal [.kwIn]) (body : Phrase expression) :
      Phrase expression
  | ifElse (kwIf : Terminal [.kwIf]) (test : Phrase expression) (kwThen : Terminal [.kwThen])
      (whenTrue : Phrase expression) (kwElse : Terminal [.kwElse])
      (whenFalse : Phrase expression) : Phrase expression
  | ofComparison (c : Phrase comparison) : Phrase expression
  | ofSum (s : Phrase sum) : Phrase comparison
  | compare (left : Phrase sum) (op : Terminal [.compare]) (right : Phrase sum) :
      Phrase comparison
  | sum (first : Phrase product) (rest : Phrase .sumTail) : Phrase sum
  | sumNil : Phrase .sumTail
  | sumCons (op : Terminal [.plus, .minus]) (operand : Phrase product) (rest : Phrase .sumTail) :
      Phrase .sumTail
  | product (first : Phrase power) (rest : Phrase .productTail) : Phrase product
  | productNil : Phrase .productTail
  | productCons (op : Terminal [.times, .divide, .modulo]) (operand : Phrase power)
      (rest : Phrase .productTail) : Phrase .productTail
  | ofUnary (u : Phrase unary) : Phrase power
  | power (base : Phrase unary) (op : Terminal [.power]) (exponent : Phrase power) :
      Phrase power
  | neg (minus : Terminal [.minus]) (operand : Phrase unary) : Phrase unary
  | ofPrimary (p : Phrase primary) : Phrase unary
  | numeral (t : Terminal [.number]) : Phrase primary
  | ident (name : Terminal [.ident]) : Phrase primary
  | callNil (name : Terminal [.ident]) (openParen : Terminal [.openParen])
      (closeParen : Terminal [.closeParen]) : Phrase primary
  | call (name : Terminal [.ident]) (openParen : Terminal [.openParen])
      (args : Phrase .arguments) (closeParen : Terminal [.closeParen]) : Phrase primary
  | group (openParen : Terminal [.openParen]) (e : Phrase expression)
      (closeParen : Terminal [.closeParen]) : Phrase primary
  | argLast (e : Phrase expression) : Phrase .arguments
  | argCons (e : Phrase expression) (comma : Terminal [.comma]) (rest : Phrase .arguments) :
      Phrase .arguments

namespace Phrase

/-- The tokens a phrase is derived from, in order. -/
@[simp] def tokens {c : Category} : Phrase c → List Token
  | letIn kwLet name assign value kwIn body =>
    kwLet.1 :: name.1 :: assign.1 :: (value.tokens ++ kwIn.1 :: body.tokens)
  | ifElse kwIf test kwThen whenTrue kwElse whenFalse =>
    kwIf.1 :: (test.tokens ++ kwThen.1 :: (whenTrue.tokens ++ kwElse.1 :: whenFalse.tokens))
  | ofComparison c => c.tokens
  | ofSum s => s.tokens
  | compare left op right => left.tokens ++ op.1 :: right.tokens
  | sum first rest => first.tokens ++ rest.tokens
  | sumNil => []
  | sumCons op operand rest => op.1 :: (operand.tokens ++ rest.tokens)
  | product first rest => first.tokens ++ rest.tokens
  | productNil => []
  | productCons op operand rest => op.1 :: (operand.tokens ++ rest.tokens)
  | ofUnary u => u.tokens
  | power base op exponent => base.tokens ++ op.1 :: exponent.tokens
  | neg minus operand => minus.1 :: operand.tokens
  | ofPrimary p => p.tokens
  | numeral t => [t.1]
  | ident name => [name.1]
  | callNil name openParen closeParen => [name.1, openParen.1, closeParen.1]
  | call name openParen args closeParen =>
    name.1 :: openParen.1 :: (args.tokens ++ [closeParen.1])
  | group openParen e closeParen => openParen.1 :: (e.tokens ++ [closeParen.1])
  | argLast e => e.tokens
  | argCons e comma rest => e.tokens ++ comma.1 :: rest.tokens

end Phrase

/-- The operator that `t` stands for, if it stands for one. -/
def operatorOf (t : Token) : Operator := t.operator?.getD .eq

/-- The value of a numeral, if it has one. -/
def valueOf (t : Token) : Value :=
  match Numeral.decode t.text.toList with
  | .ok value => value
  | .error _ => 0

namespace Phrase

/-- The tree a phrase denotes. Sums and products group to the left, powers to the right; the bodies
of `LET` and `IF` are whole expressions. -/
@[simp] def meaning {c : Category} : Phrase c → c.Meaning
  | letIn kwLet name _ value _ body =>
    Expr.bind kwLet.1.pos name.1.text value.meaning body.meaning
  | ifElse kwIf test _ whenTrue _ whenFalse =>
    Expr.cond kwIf.1.pos test.meaning whenTrue.meaning whenFalse.meaning
  | ofComparison c => c.meaning
  | ofSum s => s.meaning
  | compare left op right => Expr.binary op.1.pos (operatorOf op.1) left.meaning right.meaning
  | sum first rest => rest.meaning first.meaning
  | sumNil => fun left => left
  | sumCons op operand rest => fun left =>
    rest.meaning (Expr.binary op.1.pos (operatorOf op.1) left operand.meaning)
  | product first rest => rest.meaning first.meaning
  | productNil => fun left => left
  | productCons op operand rest => fun left =>
    rest.meaning (Expr.binary op.1.pos (operatorOf op.1) left operand.meaning)
  | ofUnary u => u.meaning
  | power base op exponent =>
    Expr.binary op.1.pos (operatorOf op.1) base.meaning exponent.meaning
  | neg minus operand => Expr.neg minus.1.pos operand.meaning
  | ofPrimary p => p.meaning
  | numeral t => Expr.num t.1.pos (valueOf t.1)
  | ident name => Expr.var name.1.pos name.1.text
  | callNil name _ _ => Expr.call name.1.pos name.1.text []
  | call name _ args _ => Expr.call name.1.pos name.1.text args.meaning
  | group _ e _ => e.meaning
  | argLast e => [e.meaning]
  | argCons e _ rest => e.meaning :: rest.meaning

/-- Every numeral of the phrase has a value. -/
@[simp] def Readable {c : Category} : Phrase c → Prop
  | letIn _ _ _ value _ body => value.Readable ∧ body.Readable
  | ifElse _ test _ whenTrue _ whenFalse =>
    test.Readable ∧ whenTrue.Readable ∧ whenFalse.Readable
  | ofComparison c => c.Readable
  | ofSum s => s.Readable
  | compare left _ right => left.Readable ∧ right.Readable
  | sum first rest => first.Readable ∧ rest.Readable
  | sumNil => True
  | sumCons _ operand rest => operand.Readable ∧ rest.Readable
  | product first rest => first.Readable ∧ rest.Readable
  | productNil => True
  | productCons _ operand rest => operand.Readable ∧ rest.Readable
  | ofUnary u => u.Readable
  | power base _ exponent => base.Readable ∧ exponent.Readable
  | neg _ operand => operand.Readable
  | ofPrimary p => p.Readable
  | numeral t => ∃ value, Numeral.decode t.1.text.toList = .ok value
  | ident _ | callNil _ _ _ => True
  | call _ _ args _ => args.Readable
  | group _ e _ => e.Readable
  | argLast e => e.Readable
  | argCons e _ rest => e.Readable ∧ rest.Readable

end Phrase

/-- The names between the parentheses of a definition: `[IDENT {',' IDENT}]`. -/
inductive Parameters where
  | none
  | names (first : Terminal [.ident]) (rest : List (Terminal [.comma] × Terminal [.ident]))

namespace Parameters

def tokens : Parameters → List Token
  | none => []
  | names first rest => first.1 :: rest.flatMap fun p => [p.1.1, p.2.1]

def texts : Parameters → List String
  | none => []
  | names first rest => first.1.text :: rest.map fun p => p.2.1.text

variable {first : Terminal [.ident]} {rest : List (Terminal [.comma] × Terminal [.ident])}

@[simp] theorem tokens_none : none.tokens = [] := rfl

@[simp] theorem tokens_names :
    (names first rest).tokens = first.1 :: rest.flatMap fun p => [p.1.1, p.2.1] := rfl

@[simp] theorem texts_none : none.texts = [] := rfl

@[simp] theorem texts_names :
    (names first rest).texts = first.1.text :: rest.map fun p => p.2.1.text := rfl

end Parameters

/-- A statement without what ends it:
`'DEF' IDENT '(' [IDENT {',' IDENT}] ')' '=' expression`, or an expression. -/
inductive Sentence where
  | define (kwDef : Terminal [.kwDef]) (name : Terminal [.ident])
      (openParen : Terminal [.openParen]) (params : Parameters)
      (closeParen : Terminal [.closeParen]) (assign : Terminal [.assign])
      (body : Phrase Level.expression)
  | eval (e : Phrase Level.expression)

namespace Sentence

def tokens : Sentence → List Token
  | define kwDef name openParen params closeParen assign body =>
    kwDef.1 :: name.1 :: openParen.1 :: (params.tokens ++ closeParen.1 :: assign.1 :: body.tokens)
  | eval e => e.tokens

def statement : Sentence → Statement
  | define kwDef name _ params _ _ body =>
    .define kwDef.1.pos ⟨name.1.text, params.texts, body.meaning⟩
  | eval e => .eval e.meaning

/-- Every numeral has a value, and no parameter is named twice. -/
def Valid : Sentence → Prop
  | define _ _ _ params _ _ body => params.texts.Nodup ∧ body.Readable
  | eval e => e.Readable

variable {kwDef : Terminal [.kwDef]} {name : Terminal [.ident]} {openParen : Terminal [.openParen]}
  {params : Parameters} {closeParen : Terminal [.closeParen]} {assign : Terminal [.assign]}
  {body e : Phrase Level.expression}

@[simp] theorem tokens_define : (define kwDef name openParen params closeParen assign body).tokens =
    kwDef.1 :: name.1 :: openParen.1 :: (params.tokens ++ closeParen.1 :: assign.1 :: body.tokens) :=
  rfl

@[simp] theorem tokens_eval : (eval e).tokens = e.tokens := rfl

@[simp] theorem statement_define : (define kwDef name openParen params closeParen assign body).statement =
    .define kwDef.1.pos ⟨name.1.text, params.texts, body.meaning⟩ :=
  rfl

@[simp] theorem statement_eval : (eval e).statement = .eval e.meaning := rfl

end Sentence

/-- A whole source: statements, each ended by a semicolon, the last one by a semicolon or by the end
of the input. -/
inductive Script where
  | done (eof : Terminal [.eof])
  | last (s : Sentence) (eof : Terminal [.eof])
  | next (s : Sentence) (semicolon : Terminal [.semicolon]) (rest : Script)

namespace Script

@[simp] def tokens : Script → List Token
  | done eof => [eof.1]
  | last s eof => s.tokens ++ [eof.1]
  | next s semicolon rest => s.tokens ++ semicolon.1 :: rest.tokens

@[simp] def sentences : Script → List Sentence
  | done _ => []
  | last s _ => [s]
  | next s _ rest => s :: rest.sentences

/-- The statements of a script, in order. -/
def statements (d : Script) : List Statement := d.sentences.map Sentence.statement

def Valid (d : Script) : Prop := ∀ s ∈ d.sentences, s.Valid

end Script

end Grammar

end Octal
