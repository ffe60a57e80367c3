import Octal.Proofs.Failure
import Octal.Proofs.Scan.Lexeme
import Octal.Statement.Parse

/-!
# Positions

Every token and every node of a tree has the byte offset where it was read. `mapPos f` moves these
offsets by `f`. The parser hands positions on and never looks at one, so it makes of moved items the
moved statements, whatever `f` is (`Program.ofItems_mapPos`). Nor does it look at a tree that it has
made, so the same goes for changes of the numerals (`Parse.Stage.step_relabel`).
-/

namespace Octal

mutual

@[simp] def Expr.mapPos (f : Nat → Nat) : Expr → Expr
  | .num pos value => .num (f pos) value
  | .var pos name => .var (f pos) name
  | .neg pos e => .neg (f pos) (e.mapPos f)
  | .binary pos op l r => .binary (f pos) op (l.mapPos f) (r.mapPos f)
  | .cond pos c t e => .cond (f pos) (c.mapPos f) (t.mapPos f) (e.mapPos f)
  | .bind pos name v b => .bind (f pos) name (v.mapPos f) (b.mapPos f)
  | .call pos name args => .call (f pos) name (Expr.mapPosAll f args)

def Expr.mapPosAll (f : Nat → Nat) : List Expr → List Expr
  | [] => []
  | e :: rest => e.mapPos f :: Expr.mapPosAll f rest

end

@[simp] theorem Expr.mapPosAll_eq (f : Nat → Nat) (es : List Expr) :
    Expr.mapPosAll f es = es.map (Expr.mapPos f) := by
  induction es with
  | nil => rfl
  | cons e es ih => rw [mapPosAll, ih, List.map_cons]

/-- The function with its body rewritten by `φ`. -/
def Function.mapBody (φ : Expr → Expr) (fn : Function) : Function := { fn with body := φ fn.body }

def Function.mapPos (f : Nat → Nat) (fn : Function) : Function := { fn with body := fn.body.mapPos f }

def Statement.mapPos (f : Nat → Nat) : Statement → Statement
  | .eval e => .eval (e.mapPos f)
  | .define pos fn => .define (f pos) (fn.mapPos f)

/-- The tree with its positions forgotten. -/
abbrev Expr.erase (e : Expr) : Expr := e.mapPos fun _ => 0

/-- The function with the positions in its body forgotten. -/
abbrev Function.erase (fn : Function) : Function := fn.mapPos fun _ => 0

/-- The statement with its positions forgotten. -/
abbrev Statement.erase (s : Statement) : Statement := s.mapPos fun _ => 0

section
variable (f g : Nat → Nat)

mutual

theorem Expr.mapPos_mapPos : (e : Expr) → (e.mapPos f).mapPos g = e.mapPos (g ∘ f)
  | .num .. | .var .. => rfl
  | .neg _ e => by simp [e.mapPos_mapPos]
  | .binary _ _ l r => by simp [l.mapPos_mapPos, r.mapPos_mapPos]
  | .cond _ c t e => by simp [c.mapPos_mapPos, t.mapPos_mapPos, e.mapPos_mapPos]
  | .bind _ _ v b => by simp [v.mapPos_mapPos, b.mapPos_mapPos]
  | .call _ _ args => by
    rw [mapPos, mapPos, mapPos, Expr.mapPosAll_mapPosAll args]
    rfl

theorem Expr.mapPosAll_mapPosAll : (es : List Expr) →
    Expr.mapPosAll g (Expr.mapPosAll f es) = Expr.mapPosAll (g ∘ f) es
  | [] => rfl
  | e :: rest => by rw [mapPosAll, mapPosAll, mapPosAll, e.mapPos_mapPos, Expr.mapPosAll_mapPosAll rest]

end

theorem Statement.mapPos_mapPos (s : Statement) : (s.mapPos f).mapPos g = s.mapPos (g ∘ f) := by
  cases s with
  | eval e => simp [mapPos, e.mapPos_mapPos]
  | define pos fn => simp [mapPos, Function.mapPos, fn.body.mapPos_mapPos]

end

/-- Only texts that cannot be parsed have errors with a position. -/
def Error.mapPos (f : Nat → Nat) : Error → Error
  | .malformed (some pos) problem => .malformed (some (f pos)) problem
  | e => e

def Token.mapPos (f : Nat → Nat) (t : Token) : Token := { t with pos := f t.pos }

def Item.mapPos (f : Nat → Nat) : Item → Item
  | .token t => .token (t.mapPos f)
  | .stray pos c => .stray (f pos) c
  | .failed cause => .failed (cause.mapPos f)

def Program.mapPos (f : Nat → Nat) (p : Program) : Program :=
  ⟨p.statements.map (Statement.mapPos f), p.fault.map (Error.mapPos f)⟩

section
variable (f : Nat → Nat)

@[simp] theorem Token.kind_mapPos (t : Token) : (t.mapPos f).kind = t.kind := rfl

@[simp] theorem Token.text_mapPos (t : Token) : (t.mapPos f).text = t.text := rfl

@[simp] theorem Token.pos_mapPos (t : Token) : (t.mapPos f).pos = f t.pos := rfl

@[simp] theorem Token.toLexeme_mapPos (t : Token) : (t.mapPos f).toLexeme = t.toLexeme := rfl

@[simp] theorem Token.operator?_mapPos (t : Token) : (t.mapPos f).operator? = t.operator? := rfl

@[simp] theorem Lexing.admits_mapPos (lexing : Lexing) (item : Item) :
    lexing.admits (item.mapPos f) = lexing.admits item := by
  cases lexing <;> cases item <;> rfl

theorem Error.mapPos_of_position_eq_none {e : Error} (h : e.position = none) : e.mapPos f = e := by
  cases e with
  | malformed pos problem =>
    cases h
    rfl
  | _ => rfl

end

/-- The result, if it is an error, has no position. -/
def Unplaced {α : Type} (x : Except Error α) : Prop := ∀ e, x = .error e → e.position = none

/-- A numeral does not know where it stands, so neither does what is wrong with it. -/
theorem Numeral.unplaced_decode (text : List Char) : Unplaced (decode text) := by
  intro e h
  rcases isNumeral_of_decode h with rfl | ⟨c, rfl⟩ | rfl <;> rfl

/-! ### Relabelling -/

/-- The change of trees leaves every node but the numerals as it is, at a position moved by `f`. -/
structure Expr.Relabels (f : Nat → Nat) (φ : Expr → Expr) : Prop where
  var (pos : Nat) (name : String) : φ (.var pos name) = .var (f pos) name
  neg (pos : Nat) (e : Expr) : φ (.neg pos e) = .neg (f pos) (φ e)
  binary (pos : Nat) (op : Operator) (l r : Expr) : φ (.binary pos op l r) = .binary (f pos) op (φ l) (φ r)
  cond (pos : Nat) (c t e : Expr) : φ (.cond pos c t e) = .cond (f pos) (φ c) (φ t) (φ e)
  bind (pos : Nat) (name : String) (v b : Expr) : φ (.bind pos name v b) = .bind (f pos) name (φ v) (φ b)
  call (pos : Nat) (name : String) (args : List Expr) : φ (.call pos name args) = .call (f pos) name (args.map φ)

theorem Expr.relabels_mapPos (f : Nat → Nat) : Relabels f (mapPos f) where
  var _ _ := rfl
  neg _ _ := rfl
  binary _ _ _ _ := rfl
  cond _ _ _ _ := rfl
  bind _ _ _ _ := rfl
  call _ _ _ := by rw [mapPos, mapPosAll_eq]

/-- The token is no numeral that the change of trees alters. -/
def Token.Kept (f : Nat → Nat) (φ : Expr → Expr) (t : Token) : Prop :=
  t.kind = .number → ∀ v, φ (.num t.pos v) = .num (f t.pos) v

def Statement.relabel (f : Nat → Nat) (φ : Expr → Expr) : Statement → Statement
  | .eval e => .eval (φ e)
  | .define pos fn => .define (f pos) (fn.mapBody φ)

namespace Parse

namespace Frame

def relabel (f : Nat → Nat) (φ : Expr → Expr) : Frame → Frame
  | paren => paren
  | condTest pos => condTest (f pos)
  | condTrue pos test => condTrue (f pos) (φ test)
  | condFalse pos test whenTrue => condFalse (f pos) (φ test) (φ whenTrue)
  | bindValue pos name => bindValue (f pos) name
  | bindBody pos name value => bindBody (f pos) name (φ value)
  | callArg pos name args => callArg (f pos) name (args.map φ)
  | neg pos => neg (f pos)
  | right pos op left => right (f pos) op (φ left)
  | body pos name params => body (f pos) name params

variable {f : Nat → Nat} {φ : Expr → Expr} (x : Frame)

theorem close?_relabel (h : Expr.Relabels f φ) (e : Expr) : (x.relabel f φ).close? (φ e) = (x.close? e).map φ := by
  cases x with
  | condFalse pos test whenTrue => exact congrArg some (h.cond pos test whenTrue e).symm
  | bindBody pos name value => exact congrArg some (h.bind pos name value e).symm
  | neg pos => exact congrArg some (h.neg pos e).symm
  | right pos op left => exact congrArg some (h.binary pos op left e).symm
  | _ => rfl

@[simp] theorem bindsBefore_relabel (op : Operator) : (x.relabel f φ).bindsBefore op = x.bindsBefore op := by
  cases x <;> rfl

@[simp] theorem isComparison_relabel : (x.relabel f φ).isComparison = x.isComparison := by
  cases x <;> rfl

end Frame

def Stage.relabel (f : Nat → Nat) (φ : Expr → Expr) : Stage → Stage
  | .start => .start
  | .expression stack => .expression (stack.map (Frame.relabel f φ))
  | .operand stack => .operand (stack.map (Frame.relabel f φ))
  | .operator e stack => .operator (φ e) (stack.map (Frame.relabel f φ))
  | .ident pos name stack => .ident (f pos) name (stack.map (Frame.relabel f φ))
  | .arguments pos name stack => .arguments (f pos) name (stack.map (Frame.relabel f φ))
  | .bindName pos stack => .bindName (f pos) (stack.map (Frame.relabel f φ))
  | .bindAssign pos name stack => .bindAssign (f pos) name (stack.map (Frame.relabel f φ))
  | .defName pos => .defName (f pos)
  | .defOpen pos name => .defOpen (f pos) name
  | .defParams pos name => .defParams (f pos) name
  | .defParam pos name params => .defParam (f pos) name params
  | .defComma pos name params param paramPos => .defComma (f pos) name params param (f paramPos)
  | .defAssign pos name params => .defAssign (f pos) name params
  | .separated s => .separated (s.relabel f φ)
  | .ended s => .ended (s.map (Statement.relabel f φ))
  | .failed cause => .failed (cause.mapPos f)

section
variable {f : Nat → Nat} {φ : Expr → Expr} (t : Token) (e : Expr) (stack : List Frame)

theorem expect_relabel (kind : Kind) (next : Stage) :
    expect kind (t.mapPos f) (next.relabel f φ) = (expect kind t next).relabel f φ := by
  unfold expect
  rw [Token.kind_mapPos]
  split <;> rfl

theorem operandAt_relabel (ht : t.Kept f φ) :
    operandAt (stack.map (Frame.relabel f φ)) (t.mapPos f) = (operandAt stack t).relabel f φ := by
  simp only [operandAt, Token.kind_mapPos, Token.text_mapPos]
  split
  · rfl
  · next hk =>
    split
    · next v _ =>
      rw [Stage.relabel, ht hk v]
      rfl
    · next cause h =>
      rw [Stage.relabel, Error.mapPos_of_position_eq_none f (Numeral.unplaced_decode _ cause h)]
  all_goals rfl

theorem expressionAt_relabel (ht : t.Kept f φ) :
    expressionAt (stack.map (Frame.relabel f φ)) (t.mapPos f) = (expressionAt stack t).relabel f φ := by
  simp only [expressionAt, Token.kind_mapPos]
  split
  · rfl
  · rfl
  · rfl
  · exact operandAt_relabel t stack ht

theorem statementAt_relabel (ht : t.Kept f φ) : statementAt (t.mapPos f) = (statementAt t).relabel f φ := by
  simp only [statementAt, Token.kind_mapPos]
  split
  · rfl
  · rfl
  · exact expressionAt_relabel t [] ht

theorem endStatement_relabel (s : Statement) (problem : Lexeme → Problem) :
    endStatement (s.relabel f φ) (t.mapPos f) problem = (endStatement s t problem).relabel f φ := by
  simp only [endStatement, Token.kind_mapPos]
  split <;> rfl

variable (h : Expr.Relabels f φ)
include h

theorem reduce_relabel {p : Frame → Bool} (hp : ∀ x : Frame, p (x.relabel f φ) = p x) :
    reduce p (φ e) (stack.map (Frame.relabel f φ)) =
      (φ (reduce p e stack).1, (reduce p e stack).2.map (Frame.relabel f φ)) := by
  induction stack generalizing e with
  | nil => rfl
  | cons x stack ih =>
    simp only [List.map_cons, reduce, Frame.close?_relabel x h, hp]
    cases x.close? e with
    | none => rfl
    | some e' =>
      simp only [Option.map_some]
      split
      · exact ih e'
      · rfl

theorem delimit_relabel :
    delimit (φ e) (t.mapPos f) (stack.map (Frame.relabel f φ)) = (delimit e t stack).relabel f φ := by
  cases stack with
  | nil => exact endStatement_relabel t (.eval e) .trailing
  | cons x stack =>
    cases x with
    | paren => exact expect_relabel t _ (.operator e stack)
    | condTest pos => exact expect_relabel t _ (.expression (.condTrue pos e :: stack))
    | condTrue pos test => exact expect_relabel t _ (.expression (.condFalse pos test e :: stack))
    | bindValue pos name => exact expect_relabel t _ (.expression (.bindBody pos name e :: stack))
    | callArg pos name args =>
      by_cases hk : t.kind = .comma
      · simp [delimit, Frame.relabel, Stage.relabel, hk]
      · have hclose := expect_relabel (f := f) (φ := φ) t .closeParen
          (.operator (.call pos name (e :: args).reverse) stack)
        simpa [delimit, Frame.relabel, Stage.relabel, hk, h.call] using hclose
    | body pos name params => exact endStatement_relabel t (.define pos ⟨name, params, e⟩) .bodyContinues
    | condFalse | bindBody | neg | right => exact endStatement_relabel t (.eval e) .trailing

theorem closeAt_relabel :
    closeAt (φ e) (stack.map (Frame.relabel f φ)) (t.mapPos f) = (closeAt e stack t).relabel f φ := by
  rw [closeAt, reduce_relabel e stack h fun _ => rfl]
  exact delimit_relabel t _ _ h

theorem operatorAt_relabel :
    operatorAt (φ e) (stack.map (Frame.relabel f φ)) (t.mapPos f) = (operatorAt e stack t).relabel f φ := by
  simp only [operatorAt, Token.operator?_mapPos, Token.kind_mapPos, closeAt_relabel t e stack h]
  cases t.operator? with
  | none =>
    by_cases hk : t.kind = .compare
    · simp only [hk, if_true]
      rfl
    · simp only [hk, if_false]
  | some op =>
    have hp (x : Frame) : (x.relabel f φ).bindsBefore op = x.bindsBefore op := by simp
    have hc : ((reduce (Frame.bindsBefore op) e stack).2.map (Frame.relabel f φ)).head?.any Frame.isComparison =
        (reduce (Frame.bindsBefore op) e stack).2.head?.any Frame.isComparison := by
      cases (reduce (Frame.bindsBefore op) e stack).2 <;> simp
    simp only [reduce_relabel e stack h hp, hc]
    split <;> rfl

theorem Stage.step_relabel (ht : t.Kept f φ) (stage : Stage) :
    (stage.relabel f φ).step (t.mapPos f) = (stage.step t).relabel f φ := by
  cases stage with
  | start | separated => exact statementAt_relabel t ht
  | expression stack => exact expressionAt_relabel t stack ht
  | operand stack => exact operandAt_relabel t stack ht
  | operator e stack => exact operatorAt_relabel t e stack h
  | ident pos name stack =>
    by_cases hk : t.kind = .openParen
    · rw [relabel, step, step, Token.kind_mapPos, if_pos hk, if_pos hk]
      rfl
    · rw [relabel, step, step, Token.kind_mapPos, if_neg hk, if_neg hk, ← h.var]
      exact operatorAt_relabel t (.var pos name) stack h
  | arguments pos name stack =>
    by_cases hk : t.kind = .closeParen
    · rw [relabel, step, step, Token.kind_mapPos, if_pos hk, if_pos hk, relabel, h.call]
      rfl
    · rw [relabel, step, step, Token.kind_mapPos, if_neg hk, if_neg hk]
      exact expressionAt_relabel t (.callArg pos name [] :: stack) ht
  | bindName pos stack => exact expect_relabel t _ (.bindAssign pos t.text stack)
  | bindAssign pos name stack => exact expect_relabel t _ (.expression (.bindValue pos name :: stack))
  | defName pos => exact expect_relabel t _ (.defOpen pos t.text)
  | defOpen pos name => exact expect_relabel t _ (.defParams pos name)
  | defParam pos name params => exact expect_relabel t _ (.defComma pos name params t.text t.pos)
  | defAssign pos name params => exact expect_relabel t _ (.expression [.body pos name params])
  | defParams pos name =>
    by_cases hk : t.kind = .ident
    · rw [relabel, step, step, Token.kind_mapPos, if_pos hk, if_pos hk]
      rfl
    · rw [relabel, step, step, Token.kind_mapPos, if_neg hk, if_neg hk]
      exact expect_relabel t _ (.defAssign pos name [])
  | defComma pos name params param paramPos =>
    by_cases hc : params.contains param
    · rw [relabel, step, step, if_pos hc, if_pos hc]
      rfl
    by_cases hk : t.kind = .comma
    · rw [relabel, step, step, if_neg hc, if_neg hc, Token.kind_mapPos, if_pos hk, if_pos hk]
      rfl
    · rw [relabel, step, step, if_neg hc, if_neg hc, Token.kind_mapPos, if_neg hk, if_neg hk]
      exact expect_relabel t _ (.defAssign pos name (param :: params).reverse)
  | ended | failed => rfl

end

namespace State
variable {f : Nat → Nat} {φ : Expr → Expr}

def relabel (f : Nat → Nat) (φ : Expr → Expr) (s : State) : State :=
  ⟨s.statements.map (Statement.relabel f φ), s.stage.relabel f φ⟩

theorem receive_relabel (h : Expr.Relabels f φ) {item : Item} (hitem : ∀ t, item = .token t → t.Kept f φ)
    (stage : Stage) :
    receive (stage.relabel f φ) (item.mapPos f) = (receive stage item).relabel f φ := by
  cases item with
  | token t =>
    have hstep := stage.step_relabel t h (hitem t rfl)
    cases stage <;> exact hstep
  | stray pos c => cases stage <;> rfl
  | failed cause => cases stage <;> rfl

theorem feed_relabel (h : Expr.Relabels f φ) {item : Item} (hitem : ∀ t, item = .token t → t.Kept f φ) (s : State) :
    (s.relabel f φ).feed (item.mapPos f) = (s.feed item).relabel f φ := by
  obtain ⟨statements, stage⟩ := s
  have hreceive := receive_relabel h hitem stage
  cases item with
  | token t => cases stage <;> exact congrArg (State.mk _) hreceive
  | stray pos c => cases stage <;> rfl
  | failed cause => cases stage <;> rfl

theorem run_relabel (h : Expr.Relabels f φ) {items : List Item} (hitems : ∀ t, .token t ∈ items → t.Kept f φ)
    (s : State) :
    (items.map (Item.mapPos f)).foldl feed (s.relabel f φ) = (items.foldl feed s).relabel f φ := by
  induction items generalizing s with
  | nil => rfl
  | cons item items ih =>
    have hitem : ∀ t, item = .token t → t.Kept f φ := fun t ht => hitems t (ht ▸ List.mem_cons_self)
    rw [List.map_cons, List.foldl_cons, List.foldl_cons, feed_relabel h hitem,
      ih fun t ht => hitems t (List.mem_cons_of_mem _ ht)]

theorem program_relabel (s : State) :
    (s.relabel f φ).program =
      ⟨s.program.statements.map (Statement.relabel f φ), s.program.fault.map (Error.mapPos f)⟩ := by
  obtain ⟨statements, stage⟩ := s
  cases stage with
  | ended x => cases x <;> simp [program, relabel, Stage.relabel]
  | _ => simp [program, relabel, Stage.relabel]

end State

end Parse

/-- The program of moved items is the moved program. -/
theorem Program.ofItems_mapPos (f : Nat → Nat) (items : List Item) :
    Program.ofItems (items.map (Item.mapPos f)) = (Program.ofItems items).mapPos f := by
  have hstatement : Statement.mapPos f = Statement.relabel f (Expr.mapPos f) := by
    funext s
    cases s <;> rfl
  rw [mapPos, hstatement, ofItems, ofItems, ← Parse.State.program_relabel,
    ← Parse.State.run_relabel (Expr.relabels_mapPos f) fun t _ _ v => rfl]
  rfl

end Octal
