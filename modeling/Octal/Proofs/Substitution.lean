import Mathlib
import Octal.Proofs.Locality

/-!
# Substitution

A scope is a substitution that has not been carried out. `e.subst σ` writes the values of `σ` into `e`, in
place of its free variables, and does in any scope what `e` does with `σ` as a frame inside that scope
(`Expr.eval_subst`). The value of a binding is outside the new name, and its body is where the new name
hides the one in `σ`. So a binding comes to its body with the value written into it, and a call comes
to the function's body with its arguments written into it.
-/

namespace Octal

mutual

/-- The expression with numerals for the values of `σ` in place of its free variables. -/
def Expr.subst (σ : Bindings) : Expr → Expr
  | .num pos value => .num pos value
  | .var pos name =>
    match List.lookup name σ with
    | some value => .num pos value
    | none => .var pos name
  | .neg pos e => .neg pos (e.subst σ)
  | .binary pos op l r => .binary pos op (l.subst σ) (r.subst σ)
  | .cond pos test whenTrue whenFalse => .cond pos (test.subst σ) (whenTrue.subst σ) (whenFalse.subst σ)
  -- The name is bound in the body, so what `σ` has for it is not meant there.
  | .bind pos name value body => .bind pos name (value.subst σ) (body.subst (σ.filter (·.1 ≠ name)))
  | .call pos name args => .call pos name (Expr.substAll σ args)

def Expr.substAll (σ : Bindings) : List Expr → List Expr
  | [] => []
  | e :: rest => e.subst σ :: Expr.substAll σ rest

end

theorem Bindings.lookup_filter (σ : Bindings) (name x : String) :
    List.lookup x (σ.filter (·.1 ≠ name)) = if x = name then none else List.lookup x σ := by
  induction σ with
  | nil => simp
  | cons p σ ih =>
    obtain ⟨y, v⟩ := p
    by_cases hy : y = name
    · rw [List.filter_cons_of_neg (by simpa using hy), ih]
      by_cases hx : x = name
      · simp only [if_pos hx]
      · have hxy : (x == y) = false := beq_false_of_ne fun h => hx (h.trans hy)
        rw [List.lookup_cons, hxy]
    · rw [List.filter_cons_of_pos (by simpa using hy), List.lookup_cons, List.lookup_cons, ih]
      by_cases hx : x = name
      · have hxy : (x == y) = false := beq_false_of_ne fun h => hy (h.symm.trans hx)
        rw [hxy]
      · simp only [if_neg hx]

namespace Scope

/-- A new binding hides the one of its name in the frame around it. -/
theorem lookup_filter_bind (σ : Bindings) (scope : Scope) (name x : String) (v : Value) :
    lookup x (σ.filter (·.1 ≠ name) :: scope.enclosed.bind name v) =
      lookup x ((enclosed (σ :: scope)).bind name v) := by
  rw [lookup_enclosed_bind, lookup, Bindings.lookup_filter, lookup_enclosed_bind]
  by_cases hx : x = name
  · simp only [if_pos hx]
  · simp only [if_neg hx]
    rfl

end Scope

section
variable {branches : Branches} {registry : Registry} {call : Caller}

/-- All that evaluation sees of a scope is what names are bound to. -/
theorem Expr.eval_congr_scope {scope scope' : Scope} (h : ∀ x, scope.lookup x = scope'.lookup x) (e : Expr) :
    e.eval branches registry call scope = e.eval branches registry call scope' :=
  e.eval_congr (fun x _ => h x) fun _ _ => ⟨rfl, fun _ _ _ => rfl⟩

mutual

/-- An expression with values written into it does what it does with the values in a frame. -/
theorem Expr.eval_subst (σ : Bindings) (scope : Scope) : (e : Expr) →
    (e.subst σ).eval branches registry call scope = e.eval branches registry call (σ :: scope)
  | .num .. => by rw [subst, eval, eval]
  | .var _ name => by
    rw [subst, eval, Scoping.lookup_ofScope, Scope.lookup]
    cases List.lookup name σ with
    | some v =>
      simp only [eval]
      rfl
    | none => simp only [eval, Scoping.lookup_ofScope]
  | .neg _ e => by rw [subst, eval, eval, e.eval_subst]
  | .binary _ op l r => by rw [subst, eval, eval, l.eval_subst, r.eval_subst]
  | .cond _ test whenTrue whenFalse => by
    rw [subst, eval, eval, test.eval_subst, whenTrue.eval_subst, whenFalse.eval_subst]
  | .bind _ name value body => by
    have hbody (v : Value) : (body.subst (σ.filter (·.1 ≠ name))).eval branches registry call
        (scope.enclosed.bind name v) =
          body.eval branches registry call ((Scope.enclosed (σ :: scope)).bind name v) :=
      (body.eval_subst _ _).trans
        (body.eval_congr_scope fun x => Scope.lookup_filter_bind σ scope name x v)
    simp only [subst, eval, Scoping.within_ofScope, value.eval_subst, hbody]
  | .call _ name args => by rw [subst, eval, eval, Expr.evalAll_subst σ scope args]

theorem Expr.evalAll_subst (σ : Bindings) (scope : Scope) : (es : List Expr) →
    Expr.evalAll branches registry call scope (Expr.substAll σ es) =
      Expr.evalAll branches registry call (σ :: scope) es
  | [] => by rw [substAll, evalAll, evalAll]
  | e :: rest => by rw [substAll, evalAll, evalAll, e.eval_subst, Expr.evalAll_subst σ scope rest]

end

/-- A function's body in the frame of its parameters does what it does with the arguments written into it. -/
theorem Expr.eval_subst_params (body : Expr) (params : List String) (args : List Value) :
    (body.subst (params.zip args).reverse).eval branches registry call Scope.root =
      body.eval branches registry call (Scope.ofParams params args) := by
  rw [eval_subst, Scope.ofParams_eq]
  refine body.eval_congr_scope fun x => ?_
  rw [Scope.lookup, Scope.lookup]
  rfl

end

/-- Scopes do what substitution does. When the value of a binding comes to `v`, the binding comes to what its
body does with `v` in place of the name, in the scope of the binding. When the arguments of a call come to
`vs`, one for each parameter, and a call is left to nest, the call comes to what the function's body does with
`vs` in place of the parameters, one level deeper and in a scope without bindings. The last of several parameters
of one name is the one that counts. -/
theorem eval_eq_eval_subst (settings : Settings) (registry : Registry) (n : Nat) (scope : Scope)
    (trace trace' : Trace) :
    (∀ (pos : Nat) (x : String) (a b : Expr) (v : Value),
      ((a.eval settings.branches registry (callAt settings registry n) scope).run trace).1 = .ok v →
      (((Expr.bind pos x a b).eval settings.branches registry (callAt settings registry n) scope).run trace).1 =
        (((b.subst [(x, v)]).eval settings.branches registry (callAt settings registry n) scope).run trace').1) ∧
    ∀ (pos : Nat) (name : String) (args : List Expr) (f : Function) (vs : List Value),
      registry.get? name = some f → args.length = f.arity →
      ((Expr.evalAll settings.branches registry (callAt settings registry (n + 1)) scope args).run trace).1 =
        .ok vs →
      (((Expr.call pos name args).eval settings.branches registry (callAt settings registry (n + 1)) scope).run
          trace).1 =
        (((f.body.subst (f.params.zip vs).reverse).eval settings.branches registry (callAt settings registry n)
          Scope.root).run trace').1 := by
  have hcall := yields_callAt settings registry
  constructor
  · intro pos x a b v ha
    rw [Expr.yields_eval (hcall n) scope a trace] at ha
    rw [Expr.eval_subst, Expr.yields_eval (hcall n) scope _ trace, Expr.yields_eval (hcall n) _ b trace',
      Expr.eval, ha]
    rfl
  · intro pos name args f vs hf hn hargs
    rw [Expr.yields_evalAll (hcall (n + 1)) scope args trace] at hargs
    have hlength : vs.length = f.arity := (Expr.length_of_evalAll hargs).trans hn
    rw [Expr.eval_subst_params, Expr.yields_eval (hcall (n + 1)) scope _ trace,
      Expr.yields_eval (hcall n) _ f.body trace', Expr.eval, hf, hargs]
    show (if vs.length = f.arity then _ else _) = _
    rw [if_pos hlength]
    rfl

/-- The value of the inner binding is outside of it and its body inside; the parameter `x` is not the `x` of the
caller. -/
theorem eval_eq_eval_subst_hidden :
    let f : Function := ⟨"f", ["x", "y"], .bind 0 "y" (.var 0 "x") (.binary 0 .sub (.var 0 "x") (.var 0 "y"))⟩
    let call (n : Nat) : Caller := callAt ⟨5, .eager, .strict⟩ [f] n
    (((Expr.bind 0 "x" (.num 0 7) (.bind 0 "x" (.neg 0 (.var 0 "x")) (.var 0 "x"))).eval .eager [f] (call 4)
          [[("x", 3)]]).run []).1 =
        (((Expr.bind 0 "x" (.neg 0 (.num 0 7)) (.var 0 "x")).eval .eager [f] (call 4) [[("x", 3)]]).run []).1 ∧
      (((Expr.call 0 "f" [.num 0 6, .var 0 "x"]).eval .eager [f] (call 5) [[("x", 3)]]).run []).1 =
        (((Expr.bind 0 "y" (.num 0 6) (.binary 0 .sub (.num 0 6) (.var 0 "y"))).eval .eager [f] (call 4)
          Scope.root).run []).1 := by
  intro f call
  have h := eval_eq_eval_subst ⟨5, .eager, .strict⟩ [f] 4 [[("x", 3)]] [] []
  exact ⟨h.1 0 "x" (.num 0 7) _ 7 rfl, h.2 0 "f" _ f [6, 3] rfl rfl rfl⟩

end Octal
