import Octal.Expr
import Octal.Token.Scan

/-!
# Parsing

    statement   := (definition | expression) (';' | end)
    definition  := 'DEF' IDENT '(' [IDENT {',' IDENT}] ')' '=' expression
    expression  := binding | conditional | comparison
    binding     := 'LET' IDENT '=' expression 'IN' expression
    conditional := 'IF' expression 'THEN' expression 'ELSE' expression
    comparison  := sum [COMPARE sum]
    sum         := product {('+' | '-') product}
    product     := power {('*' | '/' | '%') power}
    power       := unary ['^' power]
    unary       := '-' unary | primary
    primary     := NUMBER | IDENT | IDENT '(' [expression {',' expression}] ')' | '(' expression ')'

The parser takes one token at a time. A stack of frames holds the constructs that are still open,
innermost first: an operand is combined with the frames above an operator that bind tighter than
it, and a token that continues no operand closes everything up to the frame that waits for it.

A statement counts as read when the token after its separator has arrived. Whatever keeps that
token from arriving keeps the statement from being executed.
-/

namespace Octal

/-- How tightly an operator binds. -/
def Operator.rank : Operator → Nat
  | .pow => 4
  | .mul | .div | .mod => 3
  | .add | .sub => 2
  | .eq | .ne | .lt | .gt | .le | .ge => 1

def Operator.isComparison (op : Operator) : Bool := op.rank == 1

/-- Whether `x op y op' z` is `(x op y) op' z`. Sums and products group to the left, powers to the
right; comparisons do not chain, so they need no rule. -/
def Operator.bindsBefore (op op' : Operator) : Bool :=
  op'.rank < op.rank || (op.rank == op'.rank && (op.rank == 2 || op.rank == 3))

/-- The operator a token stands for between two operands. -/
def Token.operator? (t : Token) : Option Operator :=
  match t.kind with
  | .plus => some .add
  | .minus => some .sub
  | .times => some .mul
  | .divide => some .div
  | .modulo => some .mod
  | .power => some .pow
  | .compare => Operator.comparison? t.text
  | _ => none

namespace Parse

/-- A construct that waits for the expression being read. -/
inductive Frame where
  | paren
  | condTest (pos : Nat)
  | condTrue (pos : Nat) (test : Expr)
  | condFalse (pos : Nat) (test whenTrue : Expr)
  | bindValue (pos : Nat) (name : String)
  | bindBody (pos : Nat) (name : String) (value : Expr)
  /-- A call with the arguments read so far, last one first. -/
  | callArg (pos : Nat) (name : String) (args : List Expr)
  | neg (pos : Nat)
  | right (pos : Nat) (op : Operator) (left : Expr)
  | body (pos : Nat) (name : String) (params : List String)
deriving Repr, BEq

namespace Frame

/-- The expression that `e` completes, if the construct ends with it. -/
def close? : Frame → Expr → Option Expr
  | condFalse pos test whenTrue, e => some (.cond pos test whenTrue e)
  | bindBody pos name value, e => some (.bind pos name value e)
  | neg pos, e => some (.neg pos e)
  | right pos op left, e => some (.binary pos op left e)
  | _, _ => none

/-- Whether the construct takes the operand before it, rather than the operator after it. -/
def bindsBefore (op : Operator) : Frame → Bool
  | neg _ => true
  | right _ op' _ => op'.bindsBefore op
  | _ => false

def isComparison : Frame → Bool
  | right _ op _ => op.isComparison
  | _ => false

end Frame

/-- Combine `e` with the frames on top of the stack that satisfy `p` and end with `e`. -/
def reduce (p : Frame → Bool) (e : Expr) : List Frame → Expr × List Frame
  | [] => (e, [])
  | f :: stack =>
    match f.close? e with
    | some e' => if p f then reduce p e' stack else (e, f :: stack)
    | none => (e, f :: stack)

/-- What has been read of a statement, and so what may follow. -/
inductive Stage where
  /-- Nothing yet. -/
  | start
  /-- An expression follows. -/
  | expression (stack : List Frame)
  /-- An operand follows, which no keyword can begin. -/
  | operand (stack : List Frame)
  /-- An operand was read. -/
  | operator (e : Expr) (stack : List Frame)
  /-- An identifier was read: a variable, unless an argument list follows. -/
  | ident (pos : Nat) (name : String) (stack : List Frame)
  /-- The opening parenthesis of an argument list was read. -/
  | arguments (pos : Nat) (name : String) (stack : List Frame)
  | bindName (pos : Nat) (stack : List Frame)
  | bindAssign (pos : Nat) (name : String) (stack : List Frame)
  | defName (pos : Nat)
  | defOpen (pos : Nat) (name : String)
  /-- The opening parenthesis of a parameter list was read. -/
  | defParams (pos : Nat) (name : String)
  /-- A comma in a parameter list was read; parameters are held last one first. -/
  | defParam (pos : Nat) (name : String) (params : List String)
  /-- The parameter `param` was read. Whether it repeats one of `params` is found out at the next
  token. -/
  | defComma (pos : Nat) (name : String) (params : List String) (param : String) (paramPos : Nat)
  | defAssign (pos : Nat) (name : String) (params : List String)
  /-- A statement and its separator were read. -/
  | separated (s : Statement)
  /-- The end of the input was read, directly after `s` if there is one. -/
  | ended (s : Option Statement)
  | failed (cause : Error)
deriving Repr, BEq

/-- The error `p` at the token `t`. -/
def fail (t : Token) (p : Problem) : Stage := .failed (.malformed (some t.pos) p)

/-- The stage after `t`, where only the kind `kind` may stand. -/
def expect (kind : Kind) (t : Token) (next : Stage) : Stage :=
  if t.kind = kind then next else fail t (.expected kind t.toLexeme)

def operandAt (stack : List Frame) (t : Token) : Stage :=
  match t.kind with
  | .minus => .operand (.neg t.pos :: stack)
  | .number =>
    match Numeral.decode t.text.toList with
    | .ok value => .operator (.num t.pos value) stack
    | .error cause => .failed cause
  | .openParen => .expression (.paren :: stack)
  | .ident => .ident t.pos t.text stack
  | .kwDef => fail t .misplacedDefinition
  | .eof => fail t .endOfExpression
  | _ => fail t (.unexpected t.toLexeme)

def expressionAt (stack : List Frame) (t : Token) : Stage :=
  match t.kind with
  | .kwLet => .bindName t.pos stack
  | .kwIf => .expression (.condTest t.pos :: stack)
  | .eof => fail t .endOfExpression
  | _ => operandAt stack t

def statementAt (t : Token) : Stage :=
  match t.kind with
  | .eof => .ended none
  | .kwDef => .defName t.pos
  | _ => expressionAt [] t

/-- The stage after `s`, which only a separator or the end may follow. -/
def endStatement (s : Statement) (t : Token) (problem : Lexeme → Problem) : Stage :=
  match t.kind with
  | .semicolon => .separated s
  | .eof => .ended (some s)
  | _ => fail t (problem t.toLexeme)

/-- The stage after the whole expression `e` and a token that is not part of it. -/
def delimit (e : Expr) (t : Token) : List Frame → Stage
  | .paren :: stack => expect .closeParen t (.operator e stack)
  | .condTest pos :: stack => expect .kwThen t (.expression (.condTrue pos e :: stack))
  | .condTrue pos test :: stack => expect .kwElse t (.expression (.condFalse pos test e :: stack))
  | .bindValue pos name :: stack => expect .kwIn t (.expression (.bindBody pos name e :: stack))
  | .callArg pos name args :: stack =>
    if t.kind = .comma then .expression (.callArg pos name (e :: args) :: stack)
    else expect .closeParen t (.operator (.call pos name (e :: args).reverse) stack)
  | .body pos name params :: _ => endStatement (.define pos ⟨name, params, e⟩) t .bodyContinues
  | _ => endStatement (.eval e) t .trailing

/-- Close the constructs that end with `e`, then let `t` continue the one that waits for it. -/
def closeAt (e : Expr) (stack : List Frame) (t : Token) : Stage :=
  let (e, stack) := reduce (fun _ => true) e stack
  delimit e t stack

def operatorAt (e : Expr) (stack : List Frame) (t : Token) : Stage :=
  match t.operator? with
  | some op =>
    let (left, rest) := reduce (Frame.bindsBefore op) e stack
    if op.isComparison && rest.head?.any Frame.isComparison then closeAt e stack t
    else .operand (.right t.pos op left :: rest)
  | none =>
    if t.kind = .compare then fail t (.unknownComparison t.text) else closeAt e stack t

def Stage.step : Stage → Token → Stage
  | .start, t | .separated _, t => statementAt t
  | .expression stack, t => expressionAt stack t
  | .operand stack, t => operandAt stack t
  | .operator e stack, t => operatorAt e stack t
  | .ident pos name stack, t =>
    if t.kind = .openParen then .arguments pos name stack else operatorAt (.var pos name) stack t
  | .arguments pos name stack, t =>
    if t.kind = .closeParen then .operator (.call pos name []) stack
    else expressionAt (.callArg pos name [] :: stack) t
  | .bindName pos stack, t => expect .ident t (.bindAssign pos t.text stack)
  | .bindAssign pos name stack, t => expect .assign t (.expression (.bindValue pos name :: stack))
  | .defName pos, t => expect .ident t (.defOpen pos t.text)
  | .defOpen pos name, t => expect .openParen t (.defParams pos name)
  | .defParams pos name, t =>
    if t.kind = .ident then .defComma pos name [] t.text t.pos
    else expect .closeParen t (.defAssign pos name [])
  | .defParam pos name params, t => expect .ident t (.defComma pos name params t.text t.pos)
  | .defComma pos name params param paramPos, t =>
    if params.contains param then
      .failed (.malformed (some paramPos) (.duplicateParameter param))
    else if t.kind = .comma then .defParam pos name (param :: params)
    else expect .closeParen t (.defAssign pos name (param :: params).reverse)
  | .defAssign pos name params, t => expect .assign t (.expression [.body pos name params])
  | .ended s, _ => .ended s
  | .failed cause, _ => .failed cause

/-- A parse in progress: the statements read, last one first, and the one being read. -/
structure State where
  statements : List Statement
  stage : Stage
deriving Repr, BEq

namespace State

def initial : State := ⟨[], .start⟩

/-- The stage after an item. A stray character and a cut-off end the parse like a wrong token, and
nothing comes after an error. -/
def receive : Stage → Item → Stage
  | .failed cause, _ => .failed cause
  | stage, .token t => stage.step t
  | _, .stray pos c => .failed (.malformed (some pos) (.strayCharacter c))
  | _, .failed cause => .failed cause

/-- A separated statement is read for good when a token follows. -/
def feed (s : State) (item : Item) : State :=
  match s.stage, item with
  | .separated statement, .token _ => ⟨statement :: s.statements, receive s.stage item⟩
  | _, _ => ⟨s.statements, receive s.stage item⟩

end State

end Parse

/-- The statements of a source that can be executed, and the error that ends them. -/
structure Program where
  statements : List Statement
  fault : Option Error
deriving Repr, BEq

/-- The program that a finished parse has read. -/
def Parse.State.program (s : Parse.State) : Program :=
  match s.stage with
  | .ended (some statement) => ⟨(statement :: s.statements).reverse, none⟩
  | .failed cause => ⟨s.statements.reverse, some cause⟩
  | _ => ⟨s.statements.reverse, none⟩

def Program.ofItems (items : List Item) : Program :=
  (items.foldl Parse.State.feed Parse.State.initial).program

def Program.parse (lexing : Lexing) (src : Source) : Program := .ofItems (src.scan lexing)

end Octal
