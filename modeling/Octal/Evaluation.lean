import Octal.Registry
import Octal.Token.Scan
import Octal.Scope

/-!
# Evaluation

The value of an expression in a scope. Evaluation recurses on the expression and hands every call to
a handler; `callAt` is the handler that runs function bodies, and recurses on the number of calls
that may still be nested. A body sees its parameters and nothing of the scope of its caller.

What a computation is and what a scope is are left open: `Expr.eval` asks that errors can be raised and
that scopes can be read and nested (`Scoping`). Here scopes are values that are handed down.

Eager branches evaluate both branches of a conditional, so that either one can fail it; lazy branches
evaluate only the selected one.

What happens is also recorded as events, newest first, whether or not the evaluation succeeds.
-/

namespace Octal

inductive Branches where
  | eager
  | lazy
deriving DecidableEq, Repr

inductive Event where
  | define (name : String) (arity : Nat)
  | call (name : String) (depth : Nat)
  | ret (name : String) (depth : Nat) (value : Value)
  | statement (s : Statement) (value : Value)
deriving Repr, BEq

/-- Events, newest first. -/
abbrev Trace := List Event

/-- A computation that can fail and leaves a trace. -/
abbrev Eval := ExceptT Error (StateM Trace)

/-- Add an event to the trace. -/
def note (e : Event) : Eval Unit := modify (e :: ·)

/-- What a call does once its arguments are known. -/
abbrev Caller := Function → List Value → Eval Value

/-- Scopes of the type `σ`, for computations of the kind `m`. -/
class Scoping (m : Type → Type) (σ : outParam Type) where
  lookup (scope : σ) (name : String) : m Value
  /-- Go on in a new scope inside of `scope`, with `name` bound in it. -/
  within (scope : σ) (name : String) (value : Value) (next : σ → m Value) : m Value

/-- Scopes that are handed down. -/
abbrev Scoping.ofScope (m : Type → Type) [MonadLiftT (Except Error) m] : Scoping m Scope where
  lookup scope name := liftM (scope.lookup name)
  within scope name value next := next (scope.enclosed.bind name value)

instance : Scoping Eval Scope := .ofScope Eval

section
variable {m : Type → Type} {σ : Type} [Monad m] [MonadLiftT (Except Error) m] [Scoping m σ]

mutual

/-- The value of an expression. The function of a call is looked up before its arguments are
evaluated, and they are counted after. -/
@[specialize]
def Expr.eval (branches : Branches) (registry : Registry)
    (call : Function → List Value → m Value) (scope : σ) : Expr → m Value
  | .num _ value => pure value
  | .var _ name => Scoping.lookup scope name
  | .neg _ e => do
    let v ← e.eval branches registry call scope
    liftM v.neg
  | .binary _ op l r => do
    let a ← l.eval branches registry call scope
    let b ← r.eval branches registry call scope
    liftM (op.apply a b)
  | .cond _ test whenTrue whenFalse => do
    let c ← test.eval branches registry call scope
    match branches with
    | .lazy =>
      if c != 0 then whenTrue.eval branches registry call scope
      else whenFalse.eval branches registry call scope
    | .eager =>
      let t ← whenTrue.eval branches registry call scope
      let e ← whenFalse.eval branches registry call scope
      pure (if c != 0 then t else e)
  | .bind _ name value body => do
    let v ← value.eval branches registry call scope
    Scoping.within scope name v fun inner => body.eval branches registry call inner
  | .call _ name args =>
    match registry.get? name with
    | none => liftM (.error (.undefinedFunction name) : Except Error Value)
    | some f => do
      let vs ← Expr.evalAll branches registry call scope args
      if vs.length = f.arity then call f vs
      else liftM (.error (.wrongArity f.name f.arity vs.length) : Except Error Value)

/-- The values of a list of expressions, evaluated from left to right. -/
@[specialize]
def Expr.evalAll (branches : Branches) (registry : Registry)
    (call : Function → List Value → m Value) (scope : σ) : List Expr → m (List Value)
  | [] => pure []
  | e :: rest => do
    let v ← e.eval branches registry call scope
    let vs ← Expr.evalAll branches registry call scope rest
    pure (v :: vs)

end

end

/-- How expressions are evaluated and sources scanned. -/
structure Settings where
  maxDepth : Nat
  branches : Branches
  lexing : Lexing
deriving DecidableEq, Repr

namespace Settings

def default : Settings := ⟨1000, .eager, .strict⟩

instance : Inhabited Settings := ⟨default⟩

end Settings

/-- Run the body of a function when `remaining` more calls may be nested. -/
def callAt (settings : Settings) (registry : Registry) : Nat → Caller
  | 0, _, _ => throw (.depthExceeded settings.maxDepth)
  | remaining + 1, f, args => do
    let depth := settings.maxDepth - remaining
    note (.call f.name depth)
    let v ← f.body.eval settings.branches registry (callAt settings registry remaining)
      (Scope.ofParams f.params args)
    note (.ret f.name depth v)
    pure v

namespace Statement

/-- The value of a statement. A definition is worth 0; its body is not evaluated. -/
def value (settings : Settings) (registry : Registry) : Statement → Eval Value
  | .eval e =>
    e.eval settings.branches registry (callAt settings registry settings.maxDepth) Scope.root
  | .define _ f => do
    note (.define f.name f.arity)
    pure 0

/-- The functions after a statement has been executed. -/
def register (registry : Registry) : Statement → Registry
  | .eval _ => registry
  | .define _ f => registry.set f

end Statement

/-- What running statements comes to. -/
structure Outcome where
  result : Except Error Value
  registry : Registry
  trace : Trace

/-- Execute statements in order up to the first that fails, `last` being the value of the one
before them. Functions defined before a failure stay defined. -/
def execute (settings : Settings) (registry : Registry) (trace : Trace) (last : Value) :
    List Statement → Outcome
  | [] => ⟨.ok last, registry, trace⟩
  | s :: rest =>
    match (s.value settings registry).run trace with
    | (.ok v, trace) => execute settings (s.register registry) (.statement s v :: trace) v rest
    | (.error e, trace) => ⟨.error e, registry, trace⟩

end Octal
