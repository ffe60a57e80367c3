import Octal.Evaluation
import Octal.Proofs.Position

/-!
# Results of evaluation

Evaluations of two kinds go step by step alike, and what each step keeps the whole keeps (`Simulation.eval`). So the
trace, which is written and never read, can be left out: what an evaluation results in is a function of the expression
and the scope alone, and `perform` says so for statements (`execute_eq`). It fails with an error of arithmetic, of a
lookup or of a call (`error_of_perform`).

A way to rewrite expressions that keeps their results keeps those of statements as well, and the functions they
leave are the rewritten ones (`Expr.KeepsResult.perform`). Moving is such a way: results do not depend on where
anything stands in the source (`perform_mapPos`), and none of the errors has a position (`unplaced_perform`).
-/

namespace Octal

namespace Scoping
variable {m : Type → Type} [MonadLiftT (Except Error) m] (scope : Scope) (name : String)

@[simp] theorem lookup_ofScope : @lookup m Scope (.ofScope m) scope name = liftM (scope.lookup name) := rfl

@[simp] theorem within_ofScope (v : Value) (next : Scope → m Value) :
    @within m Scope (.ofScope m) scope name v next = next (scope.enclosed.bind name v) := rfl

end Scoping

/-- The frame of a function's body has its parameters, the last one newest. -/
theorem Scope.ofParams_eq (params : List String) (args : List Value) :
    ofParams params args = [(params.zip args).reverse] := by
  have bind_all (ps : Bindings) (frame : Bindings) :
      ps.foldl (fun (scope : Scope) (p : String × Value) => scope.bind p.1 p.2) [frame] = [ps.reverse ++ frame] := by
    induction ps generalizing frame with
    | nil => rfl
    | cons p ps ih =>
      rw [List.foldl_cons, List.reverse_cons, List.append_assoc]
      exact ih (p :: frame)
  rw [ofParams, root, bind_all, List.append_nil]

/-! ### Two evaluations side by side -/

/-- What can go wrong in evaluation, the limit on calls apart. -/
def Error.IsEvaluation (e : Error) : Prop :=
  e.IsArithmetic ∨ (∃ name, e = .unboundVariable name) ∨ (∃ name, e = .undefinedFunction name) ∨
    ∃ name expected got, e = .wrongArity name expected got

/-- A relation between computations of two kinds that the steps of an evaluation keep. Which scopes belong together can
depend on a world, and an inner scope may belong to another one. -/
structure Simulation (m n : Type → Type) {σ τ : Type} [Monad m] [MonadLiftT (Except Error) m] [Scoping m σ]
    [Monad n] [MonadLiftT (Except Error) n] [Scoping n τ] (W : Type) where
  Rel : W → {α : Type} → m α → n α → Prop
  Reads : W → σ → τ → Prop
  pure (w : W) {α : Type} (a : α) : Rel w (pure a) (pure a)
  bind {w : W} {α β : Type} {x : m α} {y : n α} {k : α → m β} {k' : α → n β} (h : Rel w x y)
    (hk : ∀ a, Rel w (k a) (k' a)) : Rel w (x >>= k) (y >>= k')
  lift (w : W) {α : Type} {r : Except Error α} (h : ∀ e, r = .error e → e.IsEvaluation) :
    Rel w (liftM r : m α) (liftM r : n α)
  lookup {w : W} {s : σ} {t : τ} (h : Reads w s t) (name : String) :
    Rel w (Scoping.lookup s name : m Value) (Scoping.lookup t name : n Value)
  within {w : W} {s : σ} {t : τ} (h : Reads w s t) (name : String) (v : Value) {k : σ → m Value} {k' : τ → n Value}
    (hk : ∀ w' s' t', Reads w' s' t' → Rel w' (k s') (k' t')) :
    Rel w (Scoping.within s name v k) (Scoping.within t name v k')

namespace Simulation
variable {m n : Type → Type} {σ τ : Type} [Monad m] [MonadLiftT (Except Error) m] [Scoping m σ]
  [Monad n] [MonadLiftT (Except Error) n] [Scoping n τ] {W : Type} (S : Simulation m n W)
  {branches : Branches} {registry : Registry} {call : Function → List Value → m Value}
  {call' : Function → List Value → n Value}

mutual

theorem eval (h : ∀ w f vs, S.Rel w (call f vs) (call' f vs)) : (e : Expr) → ∀ {w s t}, S.Reads w s t →
    S.Rel w (e.eval branches registry call s) (e.eval branches registry call' t)
  | .num .., _, _, _, _ => S.pure _ _
  | .var _ name, _, _, _, hst => S.lookup hst name
  | .neg _ e, w, _, _, hst =>
    S.bind (eval h e hst) fun _ => S.lift w fun _ he => .inl (.inl (Value.error_of_neg he))
  | .binary _ _ l r, w, _, _, hst =>
    S.bind (eval h l hst) fun _ => S.bind (eval h r hst) fun _ =>
      S.lift w fun _ he => .inl (Operator.isArithmetic_of_apply he)
  | .cond _ test whenTrue whenFalse, w, _, _, hst => by
    have htrue := eval h whenTrue hst
    have hfalse := eval h whenFalse hst
    rw [Expr.eval, Expr.eval]
    refine S.bind (eval h test hst) fun c => ?_
    cases branches with
    | lazy =>
      simp only
      split
      · exact htrue
      · exact hfalse
    | eager => exact S.bind htrue fun _ => S.bind hfalse fun _ => S.pure w _
  | .bind _ name value body, _, _, _, hst =>
    S.bind (eval h value hst) fun v => S.within hst name v fun _ _ _ => eval h body
  | .call _ name args, w, _, _, hst => by
    have hargs := evalAll h args hst
    rw [Expr.eval, Expr.eval]
    cases registry.get? name with
    | none =>
      refine S.lift w ?_
      rintro _ ⟨⟩
      exact .inr (.inr (.inl ⟨name, rfl⟩))
    | some f =>
      refine S.bind hargs fun vs => ?_
      split
      · exact h w f vs
      · refine S.lift w ?_
        rintro _ ⟨⟩
        exact .inr (.inr (.inr ⟨_, _, _, rfl⟩))

theorem evalAll (h : ∀ w f vs, S.Rel w (call f vs) (call' f vs)) : (es : List Expr) → ∀ {w s t}, S.Reads w s t →
    S.Rel w (Expr.evalAll branches registry call s es) (Expr.evalAll branches registry call' t es)
  | [], _, _, _, _ => S.pure _ _
  | e :: rest, _, _, _, hst =>
    S.bind (eval h e hst) fun _ => S.bind (evalAll h rest hst) fun _ => S.pure _ _

end

end Simulation

/-! ### Leaving the trace out -/

instance : Scoping (Except Error) Scope := .ofScope (Except Error)

section
variable {m : Type → Type} [Monad m] [MonadLiftT (Except Error) m] [Scoping m Scope]

/-- The value of a call when `remaining` more calls may be nested, where the body is evaluated as `inside` says. -/
def callWith (inside : String → m Value → m Value) (settings : Settings) (registry : Registry) :
    Nat → Function → List Value → m Value
  | 0, _, _ => liftM (.error (.depthExceeded settings.maxDepth) : Except Error Value)
  | remaining + 1, f, args =>
    inside f.name (f.body.eval settings.branches registry (callWith inside settings registry remaining)
      (Scope.ofParams f.params args))

/-- The value of a statement, when `call` gives the values of calls. -/
def Statement.valueWith (settings : Settings) (registry : Registry) (call : Function → List Value → m Value) :
    Statement → m Value
  | .eval e => e.eval settings.branches registry call Scope.root
  | .define _ _ => pure 0

end

/-- The value of the last of some statements, or the error of the first that fails, and the functions
after that. -/
def performWith {ε : Type} (value : Registry → Statement → Except ε Value) (registry : Registry) (last : Value) :
    List Statement → Except ε Value × Registry
  | [] => (.ok last, registry)
  | s :: rest =>
    match value registry s with
    | .ok v => performWith value (s.register registry) v rest
    | .error e => (.error e, registry)

def callResult (settings : Settings) (registry : Registry) : Nat → Function → List Value → Except Error Value :=
  callWith (fun _ body => body) settings registry

def Statement.result (settings : Settings) (registry : Registry) (s : Statement) : Except Error Value :=
  s.valueWith settings registry (callResult settings registry settings.maxDepth)

def perform (settings : Settings) (registry : Registry) (last : Value) (ss : List Statement) :
    Except Error Value × Registry :=
  performWith (fun registry s => s.result settings registry) registry last ss

section
variable (settings : Settings) (registry : Registry)

theorem callResult_succ (remaining : Nat) (f : Function) (args : List Value) :
    callResult settings registry (remaining + 1) f args =
      f.body.eval settings.branches registry (callResult settings registry remaining)
        (Scope.ofParams f.params args) := rfl

theorem perform_cons (last : Value) (s : Statement) (ss : List Statement) :
    perform settings registry last (s :: ss) =
      match s.result settings registry with
      | .ok v => perform settings (s.register registry) v ss
      | .error e => (.error e, registry) := by
  rw [perform, performWith]
  cases s.result settings registry <;> rfl

end

theorem Eval.run_bind {α β : Type} (x : Eval α) (k : α → Eval β) (trace : Trace) :
    (x >>= k).run trace = match x.run trace with
      | (.ok a, trace') => (k a).run trace'
      | (.error e, trace') => (.error e, trace') := by
  show (ExceptT.bindCont k (x.run trace).1).run (x.run trace).2 = _
  rcases x.run trace with ⟨_ | _, trace'⟩ <;> rfl

/-- The computation results in `r`, whatever was recorded before. -/
def Eval.Yields {α : Type} (x : Eval α) (r : Except Error α) : Prop := ∀ trace, (x.run trace).1 = r

namespace Eval.Yields
variable {α β : Type}

theorem pure (a : α) : Yields (Pure.pure a) (.ok a) := fun _ => rfl

theorem bind {x : Eval α} {r : Except Error α} {k : α → Eval β} {k' : α → Except Error β}
    (h : x.Yields r) (hk : ∀ a, (k a).Yields (k' a)) : (x >>= k).Yields (r >>= k') := by
  intro trace
  rw [Eval.run_bind, ← h trace]
  rcases x.run trace with ⟨_ | a, trace'⟩
  · rfl
  · exact hk a trace'

theorem note (e : Event) {k : Eval β} {r : Except Error β} (hk : k.Yields r) :
    (Octal.note e >>= fun _ => k).Yields r := fun trace => hk (e :: trace)

end Eval.Yields

def Eval.yields : Simulation Eval (Except Error) Unit where
  Rel _ _ x r := x.Yields r
  Reads _ scope scope' := scope = scope'
  pure _ _ a := .pure a
  bind := .bind
  lift _ _ _ _ _ := rfl
  lookup h _ _ := by rw [h]; rfl
  within h _ _ _ _ hk := hk () _ _ (by rw [h])

namespace Expr
variable {branches : Branches} {registry : Registry} {call : Caller}
  {call' : Function → List Value → Except Error Value} (h : ∀ f vs, (call f vs).Yields (call' f vs)) (scope : Scope)
include h

theorem yields_eval (e : Expr) :
    (e.eval branches registry call scope).Yields (e.eval branches registry call' scope) :=
  Eval.yields.eval (fun _ => h) e (w := ()) rfl

theorem yields_evalAll (es : List Expr) :
    (evalAll branches registry call scope es).Yields (evalAll branches registry call' scope es) :=
  Eval.yields.evalAll (fun _ => h) es (w := ()) rfl

end Expr

section
variable (settings : Settings) (registry : Registry)

theorem yields_callAt (remaining : Nat) (f : Function) (args : List Value) :
    (callAt settings registry remaining f args).Yields (callResult settings registry remaining f args) := by
  induction remaining generalizing f args with
  | zero => exact fun _ => rfl
  | succ remaining ih =>
    rw [callResult_succ, ← bind_pure (f.body.eval ..)]
    exact .note _ ((f.body.yields_eval ih _).bind fun v => .note _ (.pure v))

theorem Statement.yields_value (s : Statement) :
    (s.value settings registry).Yields (s.result settings registry) := by
  cases s with
  | eval e => exact e.yields_eval (yields_callAt settings registry settings.maxDepth) Scope.root
  | define pos f => exact .note _ (.pure 0)

theorem execute_eq (trace : Trace) (last : Value) (ss : List Statement) :
    ((execute settings registry trace last ss).result, (execute settings registry trace last ss).registry) =
      perform settings registry last ss := by
  induction ss generalizing registry trace last with
  | nil => rfl
  | cons s ss ih =>
    have h := s.yields_value settings registry trace
    rw [perform_cons, execute, ← h]
    cases (s.value settings registry).run trace with
    | mk r trace' =>
      cases r with
      | ok v => exact ih _ _ v
      | error e => rfl

end

/-! ### Running on -/

namespace Registry

theorem mem_names_set {name : String} {f : Function} {r : Registry} :
    name ∈ (r.set f).names ↔ name = f.name ∨ name ∈ r.names := by
  induction r with
  | nil => simp [set, names]
  | cons g r ih =>
    simp only [names] at ih
    rw [set]
    split
    · next h => simp [names, h]
    · split
      · simp [names]
      · simp [names, ih, or_left_comm]

end Registry

section
variable {settings : Settings} {registry : Registry} {last : Value}

theorem perform_append (ss ss' : List Statement) :
    perform settings registry last (ss ++ ss') =
      match perform settings registry last ss with
      | (.ok v, registry') => perform settings registry' v ss'
      | (.error e, registry') => (.error e, registry') := by
  induction ss generalizing registry last with
  | nil => rfl
  | cons s ss ih =>
    rw [List.cons_append, perform_cons, perform_cons]
    cases s.result settings registry with
    | ok v => exact ih
    | error e => rfl

theorem perform_snd (last last' : Value) (ss : List Statement) :
    (perform settings registry last ss).2 = (perform settings registry last' ss).2 := by
  cases ss <;> rfl

/-- The value before the statements shows only if there are none. -/
theorem perform_of_ne_nil {ss : List Statement} (h : ss ≠ []) (last' : Value) :
    perform settings registry last ss = perform settings registry last' ss := by
  cases ss with
  | nil => exact absurd rfl h
  | cons s ss => rfl

/-- What is defined stays defined, whether or not a statement fails. -/
theorem mem_names_perform {ss : List Statement} {name : String} (h : name ∈ registry.names) :
    name ∈ (perform settings registry last ss).2.names := by
  induction ss generalizing registry last with
  | nil => exact h
  | cons s ss ih =>
    rw [perform_cons]
    split
    · refine ih ?_
      cases s with
      | eval e => exact h
      | define pos f => exact Registry.mem_names_set.2 (.inr h)
    · exact h

end

/-! ### Errors -/

/-- Errors that have `P`, which all those of evaluation have. -/
def Simulation.errors (P : Error → Prop) (hP : ∀ e, e.IsEvaluation → P e) :
    Simulation (Except Error) (Except Error) Unit where
  Rel _ _ x _ := ∀ e, x = .error e → P e
  Reads _ _ _ := True
  pure _ _ _ _ h := nomatch h
  bind hx hk e h := by
    rcases bind_eq_error.1 h with h | ⟨a, -, h⟩
    · exact hx e h
    · exact hk a e h
  lift _ _ _ hr e h := hP e (hr e h)
  lookup _ _ e h := hP e (.inr (.inl ⟨_, Scope.error_of_lookup h⟩))
  within {_ scope _} _ _ _ _ _ hk := hk () _ (scope : Scope) trivial

/-- An evaluation fails by itself, or with the error of a call. -/
theorem Expr.error_of_eval {branches : Branches} {registry : Registry}
    {call : Function → List Value → Except Error Value} {cause : Error} (scope : Scope) (e : Expr)
    (h : e.eval branches registry call scope = .error cause) :
    cause.IsEvaluation ∨ ∃ f vs, call f vs = .error cause := by
  let S := Simulation.errors (fun e => e.IsEvaluation ∨ ∃ f vs, call f vs = .error e) fun _ => .inl
  have hcall : ∀ w f vs, S.Rel w (call f vs) (call f vs) := fun _ f vs _ he => .inr ⟨f, vs, he⟩
  exact S.eval hcall e (w := ()) (s := scope) (t := scope) trivial cause h

section
variable {settings : Settings} {registry : Registry} {cause : Error}

theorem error_of_callResult {remaining : Nat} {f : Function} {args : List Value}
    (h : callResult settings registry remaining f args = .error cause) :
    cause.IsEvaluation ∨ cause = .depthExceeded settings.maxDepth := by
  induction remaining generalizing f args with
  | zero =>
    cases h
    exact .inr rfl
  | succ remaining ih =>
    rcases f.body.error_of_eval _ h with h | ⟨g, vs, h⟩
    · exact .inl h
    · exact ih h

theorem error_of_perform {last : Value} {ss : List Statement}
    (h : (perform settings registry last ss).1 = .error cause) :
    cause.IsEvaluation ∨ cause = .depthExceeded settings.maxDepth := by
  induction ss generalizing registry last with
  | nil => cases h
  | cons s ss ih =>
    rw [perform_cons] at h
    split at h
    · exact ih h
    · next hs =>
      cases h
      cases s with
      | eval e =>
        rcases e.error_of_eval _ hs with h | ⟨f, vs, h⟩
        · exact .inl h
        · exact error_of_callResult h
      | define => cases hs

end

/-- None of these errors is at a place in the source. -/
theorem unplaced_perform (settings : Settings) (registry : Registry) (last : Value) (ss : List Statement) :
    Unplaced (perform settings registry last ss).1 := by
  intro e h
  rcases error_of_perform h with ((rfl | rfl | rfl) | ⟨_, rfl⟩ | ⟨_, rfl⟩ | ⟨_, _, _, rfl⟩) | rfl <;> rfl

/-! ### Rewriting -/

namespace Registry
variable (φ : Expr → Expr) (registry : Registry)

theorem get?_mapBody (name : String) :
    get? (registry.map (Function.mapBody φ)) name = (registry.get? name).map (Function.mapBody φ) := by
  rw [get?, get?, List.find?_map]
  rfl

theorem set_mapBody (fn : Function) :
    set (fn.mapBody φ) (registry.map (Function.mapBody φ)) = (registry.set fn).map (Function.mapBody φ) := by
  induction registry with
  | nil => rfl
  | cons g registry ih =>
    have hname (fn : Function) : (fn.mapBody φ).name = fn.name := rfl
    simp only [List.map_cons, set, hname, ih]
    (repeat' split) <;> rfl

end Registry

/-- An expression rewritten by `φ` comes to what it came to, where all functions are rewritten as well. -/
def Expr.KeepsResult (φ : Expr → Expr) : Prop :=
  ∀ (branches : Branches) (registry : Registry) (call call' : Function → List Value → Except Error Value),
    (∀ fn vs, call' (fn.mapBody φ) vs = call fn vs) → ∀ (scope : Scope) (e : Expr),
      (φ e).eval branches (registry.map (Function.mapBody φ)) call' scope = e.eval branches registry call scope

namespace Expr.KeepsResult
variable {φ : Expr → Expr} (h : KeepsResult φ) (settings : Settings) (registry : Registry)
include h

theorem callResult (remaining : Nat) (fn : Function) (args : List Value) :
    Octal.callResult settings (registry.map (Function.mapBody φ)) remaining (fn.mapBody φ) args =
      Octal.callResult settings registry remaining fn args := by
  induction remaining generalizing fn args with
  | zero => rfl
  | succ remaining ih => exact h _ _ _ _ ih _ fn.body

/-- Rewritten statements give the results of the ones they come from, and leave the rewritten functions. -/
theorem perform {ψ : Statement → Statement} (heval : ∀ e, ψ (.eval e) = .eval (φ e))
    (hdefine : ∀ pos fn, ∃ pos', ψ (.define pos fn) = .define pos' (fn.mapBody φ)) (last : Value)
    (ss : List Statement) :
    Octal.perform settings (registry.map (Function.mapBody φ)) last (ss.map ψ) =
      ((Octal.perform settings registry last ss).1,
        (Octal.perform settings registry last ss).2.map (Function.mapBody φ)) := by
  induction ss generalizing registry last with
  | nil => rfl
  | cons s ss ih =>
    have hstep : (ψ s).result settings (registry.map (Function.mapBody φ)) = s.result settings registry ∧
        (ψ s).register (registry.map (Function.mapBody φ)) = (s.register registry).map (Function.mapBody φ) := by
      cases s with
      | eval e =>
        rw [heval]
        exact ⟨h _ _ _ _ (h.callResult settings registry settings.maxDepth) _ e, rfl⟩
      | define pos fn =>
        obtain ⟨pos', hpos⟩ := hdefine pos fn
        rw [hpos]
        exact ⟨rfl, Registry.set_mapBody φ registry fn⟩
    rw [List.map_cons, perform_cons, perform_cons, hstep.1, hstep.2]
    cases s.result settings registry with
    | ok v => exact ih _ v
    | error e => rfl

end Expr.KeepsResult

/-! ### Moving -/

section
variable {m : Type → Type} {σ : Type} [Monad m] [MonadLiftT (Except Error) m] [Scoping m σ]
  {f : Nat → Nat} {branches : Branches} {registry : Registry} {call call' : Function → List Value → m Value}

mutual

theorem Expr.eval_mapPos (h : ∀ fn vs, call' (fn.mapPos f) vs = call fn vs) (scope : σ) : (e : Expr) →
    (e.mapPos f).eval branches (registry.map (Function.mapPos f)) call' scope =
      e.eval branches registry call scope
  | .num .. | .var .. => rfl
  | .neg _ e => by rw [mapPos, eval, eval, e.eval_mapPos h]
  | .binary _ op l r => by rw [mapPos, eval, eval, l.eval_mapPos h, r.eval_mapPos h]
  | .cond _ test whenTrue whenFalse => by
    rw [mapPos, eval, eval, test.eval_mapPos h, whenTrue.eval_mapPos h, whenFalse.eval_mapPos h]
  | .bind _ name value body => by
    have hbody (inner : σ) := body.eval_mapPos h inner
    simp only [mapPos, eval, value.eval_mapPos h, hbody]
  | .call _ name args => by
    have hget : Registry.get? (registry.map (Function.mapPos f)) name =
        (registry.get? name).map (Function.mapPos f) := Registry.get?_mapBody _ registry name
    rw [mapPos, eval, eval, hget, Expr.evalAll_mapPos h scope args]
    cases registry.get? name with
    | none => rfl
    | some fn =>
      simp only [Option.map_some, h]
      rfl

theorem Expr.evalAll_mapPos (h : ∀ fn vs, call' (fn.mapPos f) vs = call fn vs) (scope : σ) :
    (es : List Expr) →
    Expr.evalAll branches (registry.map (Function.mapPos f)) call' scope (Expr.mapPosAll f es) =
      Expr.evalAll branches registry call scope es
  | [] => rfl
  | e :: rest => by
    rw [mapPosAll, evalAll, evalAll, e.eval_mapPos h, Expr.evalAll_mapPos h scope rest]

end

end

section
variable (f : Nat → Nat) (settings : Settings) (registry : Registry)

theorem perform_mapPos (last : Value) (ss : List Statement) :
    perform settings (registry.map (Function.mapPos f)) last (ss.map (Statement.mapPos f)) =
      ((perform settings registry last ss).1,
        (perform settings registry last ss).2.map (Function.mapPos f)) := by
  have h : Expr.KeepsResult (Expr.mapPos f) := fun _ _ _ _ h scope e => e.eval_mapPos h scope
  exact h.perform settings registry (fun _ => rfl) (fun pos _ => ⟨f pos, rfl⟩) last ss

/-- Where the statements stand does not matter for what they do. -/
theorem perform_erase (last : Value) (ss : List Statement) :
    (perform settings registry last (ss.map (Statement.mapPos f))).1 =
        (perform settings registry last ss).1 ∧
      (perform settings registry last (ss.map (Statement.mapPos f))).2.map Function.erase =
        (perform settings registry last ss).2.map Function.erase := by
  have h := perform_mapPos (fun _ => 0) settings registry last (ss.map (Statement.mapPos f))
  have h' := perform_mapPos (fun _ => 0) settings registry last ss
  have hss : (ss.map (Statement.mapPos f)).map Statement.erase = ss.map Statement.erase := by
    rw [List.map_map]
    exact List.map_congr_left fun s _ => s.mapPos_mapPos f _
  rw [hss, h'] at h
  exact ⟨(congrArg Prod.fst h).symm, (congrArg Prod.snd h).symm⟩

end

end Octal
