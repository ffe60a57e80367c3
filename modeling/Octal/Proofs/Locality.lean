import Mathlib
import Octal.Proofs.CallGraph

/-!
# What evaluation looks at

Evaluation looks up the free variables of an expression and the functions that its calls lead to, and
nothing else. So scopes that agree on the former and registries that agree on the latter cannot be told
apart by it (`Expr.eval_congr`). A binding that is made on the way hides an outer one of its name in both
scopes alike, and a body starts from a scope of its own.
-/

namespace Octal

mutual

/-- The free variables of an expression. A binding binds its name in its body, not in its value. -/
def Expr.free : Expr → List String
  | .num .. => []
  | .var _ name => [name]
  | .neg _ e => e.free
  | .binary _ _ l r => l.free ++ r.free
  | .cond _ test whenTrue whenFalse => test.free ++ (whenTrue.free ++ whenFalse.free)
  | .bind _ name value body => value.free ++ body.free.filter (· ≠ name)
  | .call _ _ args => Expr.freeAll args

def Expr.freeAll : List Expr → List String
  | [] => []
  | e :: rest => e.free ++ Expr.freeAll rest

end

namespace Scope

theorem lookup_enclosed_bind (scope : Scope) (name x : String) (v : Value) :
    (scope.enclosed.bind name v).lookup x = if x = name then .ok v else scope.lookup x := by
  by_cases h : x = name
  · simp [enclosed, bind, lookup, h]
  · have hx : (x == name) = false := beq_false_of_ne h
    simp [enclosed, bind, lookup, h, hx, List.lookup_cons]

/-- Two scopes give the variables in `names` the same values, or none. -/
def AgreeOn (names : List String) (scope scope' : Scope) : Prop := ∀ x ∈ names, scope.lookup x = scope'.lookup x

namespace AgreeOn
variable {names names' : List String} {scope scope' : Scope}

theorem left (h : AgreeOn (names ++ names') scope scope') : AgreeOn names scope scope' :=
  fun x hx => h x (List.mem_append_left _ hx)

theorem right (h : AgreeOn (names ++ names') scope scope') : AgreeOn names' scope scope' :=
  fun x hx => h x (List.mem_append_right _ hx)

theorem bind {name : String} (h : AgreeOn (names.filter (· ≠ name)) scope scope') (v : Value) :
    AgreeOn names (scope.enclosed.bind name v) (scope'.enclosed.bind name v) := by
  intro x hx
  rw [lookup_enclosed_bind, lookup_enclosed_bind]
  split
  · rfl
  · next hne => exact h x (List.mem_filter.2 ⟨hx, by simpa using hne⟩)

end AgreeOn

end Scope

section
variable {branches : Branches} {registry registry' : Registry} {call call' : Caller}

/-- Two registries have the same functions for the calls in `nodes`, and running one of these does the same. -/
def CallNode.AgreeOn (registry registry' : Registry) (call call' : Caller) (nodes : List CallNode) : Prop :=
  ∀ node ∈ nodes, registry.get? node.name = registry'.get? node.name ∧
    ∀ f, registry.get? node.name = some f → ∀ vs, call f vs = call' f vs

theorem CallNode.AgreeOn.left {nodes nodes' : List CallNode}
    (h : AgreeOn registry registry' call call' (nodes ++ nodes')) : AgreeOn registry registry' call call' nodes :=
  fun node hn => h node (List.mem_append_left _ hn)

theorem CallNode.AgreeOn.right {nodes nodes' : List CallNode}
    (h : AgreeOn registry registry' call call' (nodes ++ nodes')) : AgreeOn registry registry' call call' nodes' :=
  fun node hn => h node (List.mem_append_right _ hn)

mutual

theorem Expr.eval_congr {scope scope' : Scope} : (e : Expr) → Scope.AgreeOn e.free scope scope' →
    CallNode.AgreeOn registry registry' call call' e.calls →
    e.eval branches registry call scope = e.eval branches registry' call' scope'
  | .num .., _, _ => rfl
  | .var _ name, hx, _ => by rw [eval, eval, Scoping.lookup_ofScope, Scoping.lookup_ofScope, hx name List.mem_cons_self]
  | .neg _ e, hx, hn => by rw [eval, eval, e.eval_congr hx hn]
  | .binary _ op l r, hx, hn => by
    rw [eval, eval, l.eval_congr hx.left hn.left, r.eval_congr hx.right hn.right]
  | .cond _ test whenTrue whenFalse, hx, hn => by
    rw [eval, eval, test.eval_congr hx.left hn.left, whenTrue.eval_congr hx.right.left hn.right.left,
      whenFalse.eval_congr hx.right.right hn.right.right]
  | .bind _ name value body, hx, hn => by
    have hbody (v : Value) := body.eval_congr (hx.right.bind v) hn.right
    simp only [eval, Scoping.within_ofScope, value.eval_congr hx.left hn.left, hbody]
  | .call _ name args, hx, hn => by
    obtain ⟨hget, hcall⟩ := hn ⟨name, args.length⟩ List.mem_cons_self
    have hargs := Expr.evalAll_congr args hx fun node h => hn node (List.mem_cons_of_mem _ h)
    rw [eval, eval, ← hget, hargs]
    cases hf : registry.get? name with
    | none => rfl
    | some f => simp only [hcall f hf]

theorem Expr.evalAll_congr {scope scope' : Scope} : (es : List Expr) →
    Scope.AgreeOn (Expr.freeAll es) scope scope' →
    CallNode.AgreeOn registry registry' call call' (Expr.callsAll es) →
    Expr.evalAll branches registry call scope es = Expr.evalAll branches registry' call' scope' es
  | [], _, _ => rfl
  | e :: rest, hx, hn => by
    rw [evalAll, evalAll, e.eval_congr hx.left hn.left, Expr.evalAll_congr rest hx.right hn.right]

end

end

/-- Where registries agree on all that is reached, the functions that are reached run the same. -/
theorem callAt_congr (settings : Settings) {registry registry' : Registry} {e : Expr}
    (h : ∀ node, registry.Reaches e node → registry.get? node.name = registry'.get? node.name) (n : Nat)
    {node : CallNode} {f : Function} (hnode : registry.Reaches e node) (hf : registry.get? node.name = some f)
    (args : List Value) : callAt settings registry n f args = callAt settings registry' n f args := by
  induction n generalizing node f args with
  | zero => rfl
  | succ n ih =>
    have hvars (scope : Scope) : Scope.AgreeOn f.body.free scope scope := fun _ _ => rfl
    have hcalls : CallNode.AgreeOn registry registry' (callAt settings registry n) (callAt settings registry' n)
        f.body.calls := by
      intro node' hn
      have hnode' := hnode.through hf hn
      exact ⟨h node' hnode', fun g hg args => ih hnode' hg args⟩
    rw [callAt, callAt, f.body.eval_congr (hvars _) hcalls]

/-- A call comes to what the function makes of the values of the arguments. -/
theorem Expr.eval_call_of_evalAll {branches : Branches} {registry : Registry}
    {call : Function → List Value → Except Error Value} {scope scope' : Scope} {args args' : List Expr}
    {vs : List Value} (h : Expr.evalAll branches registry call scope args = .ok vs)
    (h' : Expr.evalAll branches registry call scope' args' = .ok vs) (name : String) (pos pos' : Nat) :
    (Expr.call pos name args).eval branches registry call scope =
      (Expr.call pos' name args').eval branches registry call scope' := by
  rw [eval, eval, h, h']

/-- Evaluation, with any number `n` of calls left to nest, depends on nothing but the free variables of the
expression and the functions it reaches: it does and records the same where these are the same. In
particular, a call depends on the values of its arguments and not on the scope it is made in. -/
theorem eval_eq_of_agree (settings : Settings) (n : Nat) :
    (∀ (e : Expr) (scope scope' : Scope) (registry registry' : Registry),
      (∀ x ∈ e.free, scope.lookup x = scope'.lookup x) →
      (∀ node, registry.Reaches e node → registry.get? node.name = registry'.get? node.name) →
      e.eval settings.branches registry (callAt settings registry n) scope =
        e.eval settings.branches registry' (callAt settings registry' n) scope') ∧
    ∀ (registry : Registry) (name : String) (pos pos' : Nat) (args args' : List Expr) (scope scope' : Scope)
      (trace trace' : Trace) (vs : List Value),
      ((Expr.evalAll settings.branches registry (callAt settings registry n) scope args).run trace).1 = .ok vs →
      ((Expr.evalAll settings.branches registry (callAt settings registry n) scope' args').run trace').1 = .ok vs →
      (((Expr.call pos name args).eval settings.branches registry (callAt settings registry n) scope).run
          trace).1 =
        (((Expr.call pos' name args').eval settings.branches registry (callAt settings registry n) scope').run
          trace').1 := by
  constructor
  · intro e scope scope' registry registry' hvars hfuns
    have hcalls : CallNode.AgreeOn registry registry' (callAt settings registry n) (callAt settings registry' n)
        e.calls := by
      intro node hn
      have hnode : registry.Reaches e node := .here hn
      exact ⟨hfuns node hnode, fun f hf args => callAt_congr settings hfuns n hnode hf args⟩
    exact e.eval_congr hvars hcalls
  · intro registry name pos pos' args args' scope scope' trace trace' vs h h'
    have hcall := yields_callAt settings registry n
    rw [Expr.yields_evalAll hcall scope args trace] at h
    rw [Expr.yields_evalAll hcall scope' args' trace'] at h'
    rw [Expr.yields_eval hcall scope _ trace, Expr.yields_eval hcall scope' _ trace']
    exact Expr.eval_call_of_evalAll h h' name pos pos'

/-- The scopes differ in `y`, which the expression binds itself, and the registries in `h`, which it does not
reach. -/
theorem eval_eq_of_agree_shadowed :
    let f : Function := ⟨"f", ["n"], .binary 0 .add (.call 0 "g" [.var 0 "n"]) (.num 0 1)⟩
    let g : Function := ⟨"g", ["n"], .binary 0 .mul (.var 0 "n") (.var 0 "n")⟩
    let h : Function := ⟨"h", [], .num 0 5⟩
    let e : Expr := .bind 0 "y" (.var 0 "x") (.call 0 "f" [.var 0 "y"])
    e.eval .lazy [f, g] (callAt ⟨5, .lazy, .strict⟩ [f, g] 2) [[("x", 3)]] =
        e.eval .lazy [f, g, h] (callAt ⟨5, .lazy, .strict⟩ [f, g, h] 2) [[("y", 7)], [("x", 3)]] ∧
      (((Expr.call 0 "f" [.var 0 "x"]).eval .lazy [f, g] (callAt ⟨5, .lazy, .strict⟩ [f, g] 2)
          [[("x", 3)]]).run []).1 =
        (((Expr.call 8 "f" [.num 0 3]).eval .lazy [f, g] (callAt ⟨5, .lazy, .strict⟩ [f, g] 2)
          [[("n", 4)]]).run []).1 := by
  intro f g h e
  have hreach (node : CallNode) (hn : Registry.Reaches [f, g] e node) : node.name = "f" ∨ node.name = "g" := by
    induction hn with
    | here hn =>
      obtain rfl := List.mem_singleton.1 hn
      exact .inl rfl
    | through hn hf hm ih =>
      rcases ih with hname | hname <;> rw [hname] at hf <;> cases hf
      · obtain rfl := List.mem_singleton.1 hm
        exact .inr rfl
      · cases hm
  constructor
  · refine (eval_eq_of_agree ⟨5, .lazy, .strict⟩ 2).1 e _ _ [f, g] [f, g, h] (fun x hx => ?_) fun node hn => ?_
    · obtain rfl := List.mem_singleton.1 hx
      rfl
    · rcases hreach node hn with hname | hname <;> rw [hname] <;> rfl
  · exact (eval_eq_of_agree ⟨5, .lazy, .strict⟩ 2).2 [f, g] "f" 0 8 _ _ _ _ [] [] [3] rfl rfl

end Octal
