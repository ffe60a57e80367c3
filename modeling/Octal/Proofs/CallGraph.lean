import Mathlib
import Octal.Proofs.Evaluation
import Octal.Proofs.Failure

/-!
# The call graph

The calls that are written in an expression, and those written in the bodies of the functions called, and
so on (`Registry.Reaches`). Eager evaluation makes every call that is written, so it comes to a value only if
all of these calls can be made and return, each one with one call fewer left to nest than the one around
it (`Registry.Answers.of_calls`). This leaves no room for a function that leads back to itself.
-/

namespace Octal

/-- A call as it is written: the function, and how many arguments it is given. -/
structure CallNode where
  name : String
  args : Nat
deriving DecidableEq, Repr

mutual

/-- The calls written in an expression. -/
def Expr.calls : Expr → List CallNode
  | .num .. | .var .. => []
  | .neg _ e => e.calls
  | .binary _ _ l r => l.calls ++ r.calls
  | .cond _ test whenTrue whenFalse => test.calls ++ (whenTrue.calls ++ whenFalse.calls)
  | .bind _ _ value body => value.calls ++ body.calls
  | .call _ name args => ⟨name, args.length⟩ :: Expr.callsAll args

def Expr.callsAll : List Expr → List CallNode
  | [] => []
  | e :: rest => e.calls ++ Expr.callsAll rest

end

namespace Registry

/-- There is a call of `g` in the body of `f`. -/
def Calls (registry : Registry) (f g : String) : Prop :=
  ∃ fn, registry.get? f = some fn ∧ ∃ node ∈ fn.body.calls, node.name = g

/-- The calls written in `e` or in the body of a function that such a call names. -/
inductive Reaches (registry : Registry) (e : Expr) : CallNode → Prop where
  | here {node} (h : node ∈ e.calls) : Reaches registry e node
  | through {node node' f} (h : Reaches registry e node) (hf : registry.get? node.name = some f)
      (hn : node' ∈ f.body.calls) : Reaches registry e node'

end Registry

/-! ### Calls that are made -/

section
variable {registry : Registry} {call : Function → List Value → Except Error Value} {scope : Scope}

theorem Expr.length_of_evalAll {branches : Branches} {es : List Expr} {vs : List Value}
    (h : Expr.evalAll branches registry call scope es = .ok vs) : vs.length = es.length := by
  induction es generalizing vs with
  | nil =>
    cases h
    rfl
  | cons e es ih =>
    rw [evalAll] at h
    obtain ⟨v, -, h⟩ := bind_eq_ok.1 h
    obtain ⟨vs, hvs, h⟩ := bind_eq_ok.1 h
    cases h
    rw [List.length_cons, List.length_cons, ih hvs]

/-- The call can be made, and returns for some arguments. -/
def CallNode.Returns (registry : Registry) (call : Function → List Value → Except Error Value)
    (node : CallNode) : Prop :=
  ∃ f vs v, registry.get? node.name = some f ∧ f.arity = node.args ∧ call f vs = .ok v

mutual

/-- An eager evaluation that succeeds has made every call. -/
theorem Expr.returns_of_mem_calls {v : Value} {node : CallNode} {scope : Scope} : (e : Expr) →
    e.eval .eager registry call scope = .ok v → node ∈ e.calls → node.Returns registry call
  | .num .., _, hn | .var .., _, hn => nomatch hn
  | .neg _ e, h, hn => by
    rw [eval] at h
    obtain ⟨a, he, -⟩ := bind_eq_ok.1 h
    exact e.returns_of_mem_calls he hn
  | .binary _ op l r, h, hn => by
    rw [eval] at h
    obtain ⟨a, hl, h⟩ := bind_eq_ok.1 h
    obtain ⟨b, hr, -⟩ := bind_eq_ok.1 h
    rcases List.mem_append.1 hn with hn | hn
    · exact l.returns_of_mem_calls hl hn
    · exact r.returns_of_mem_calls hr hn
  | .cond _ test whenTrue whenFalse, h, hn => by
    rw [eval] at h
    obtain ⟨c, hc, h⟩ := bind_eq_ok.1 h
    obtain ⟨t, ht, h⟩ := bind_eq_ok.1 h
    obtain ⟨e, he, -⟩ := bind_eq_ok.1 h
    rcases List.mem_append.1 hn with hn | hn
    · exact test.returns_of_mem_calls hc hn
    rcases List.mem_append.1 hn with hn | hn
    · exact whenTrue.returns_of_mem_calls ht hn
    · exact whenFalse.returns_of_mem_calls he hn
  | .bind _ name value body, h, hn => by
    rw [eval] at h
    obtain ⟨a, hv, hb⟩ := bind_eq_ok.1 h
    rcases List.mem_append.1 hn with hn | hn
    · exact value.returns_of_mem_calls hv hn
    · exact body.returns_of_mem_calls hb hn
  | .call _ name args, h, hn => by
    rw [eval] at h
    split at h
    · cases h
    next f hf =>
    obtain ⟨vs, hvs, h⟩ := bind_eq_ok.1 h
    rcases List.mem_cons.1 hn with rfl | hn
    · split at h
      · next harity => exact ⟨f, vs, v, hf, harity.symm.trans (length_of_evalAll hvs), h⟩
      · cases h
    · exact Expr.returns_of_mem_callsAll args hvs hn

theorem Expr.returns_of_mem_callsAll {vs : List Value} {node : CallNode} {scope : Scope} : (es : List Expr) →
    Expr.evalAll .eager registry call scope es = .ok vs → node ∈ Expr.callsAll es → node.Returns registry call
  | [], _, hn => nomatch hn
  | e :: rest, h, hn => by
    rw [evalAll] at h
    obtain ⟨v, he, h⟩ := bind_eq_ok.1 h
    obtain ⟨vs, hvs, -⟩ := bind_eq_ok.1 h
    rcases List.mem_append.1 hn with hn | hn
    · exact e.returns_of_mem_calls he hn
    · exact Expr.returns_of_mem_callsAll rest hvs hn

end

end

/-! ### Chains of calls -/

section
variable {m : Nat} {lexing : Lexing} {registry : Registry}

/-- With eager branches, the function returns for some arguments when `n` calls may be nested. -/
def Registry.Answers (m : Nat) (lexing : Lexing) (registry : Registry) (n : Nat) (name : String) : Prop :=
  ∃ f args v, registry.get? name = some f ∧ callResult ⟨m, .eager, lexing⟩ registry n f args = .ok v

namespace Registry.Answers
variable {n : Nat} {f g : String}

/-- What a function that returns calls, returns as well, inside it. -/
theorem of_calls (h : registry.Answers m lexing n f) (hg : registry.Calls f g) :
    ∃ k < n, registry.Answers m lexing k g := by
  obtain ⟨fn, args, v, hf, hv⟩ := h
  obtain ⟨fn', hf', node, hnode, rfl⟩ := hg
  cases hf.symm.trans hf'
  cases n with
  | zero => cases hv
  | succ k =>
    obtain ⟨g, vs, w, hg, -, hw⟩ := fn.body.returns_of_mem_calls hv hnode
    exact ⟨k, by omega, g, vs, w, hg, hw⟩

theorem length_le {rest : List String} (h : registry.Answers m lexing n f)
    (hc : List.IsChain registry.Calls (f :: rest)) : (f :: rest).length ≤ n := by
  induction rest generalizing n f with
  | nil =>
    obtain ⟨fn, args, v, -, hv⟩ := h
    cases n with
    | zero => cases hv
    | succ n => simp
  | cons g rest ih =>
    obtain ⟨hg, hc⟩ := List.isChain_cons_cons.1 hc
    obtain ⟨k, hk, h⟩ := h.of_calls hg
    have := ih h hc
    simp only [List.length_cons] at this ⊢
    omega

theorem of_transGen (h : registry.Answers m lexing n f) (hg : Relation.TransGen registry.Calls f g) :
    ∃ k < n, registry.Answers m lexing k g := by
  induction hg with
  | single hg => exact h.of_calls hg
  | tail _ hg ih =>
    obtain ⟨k, hk, h⟩ := ih
    obtain ⟨l, hl, h⟩ := h.of_calls hg
    exact ⟨l, by omega, h⟩

/-- A function that leads back to itself would have to return with fewer and fewer calls allowed. -/
theorem not_transGen_self (h : registry.Answers m lexing n f) : ¬ Relation.TransGen registry.Calls f f := by
  intro hf
  induction n using Nat.strongRecOn with
  | ind n ih =>
    obtain ⟨k, hk, h⟩ := h.of_transGen hf
    exact ih k hk h

end Registry.Answers

theorem Registry.Reaches.answers {n : Nat} {scope : Scope} {e : Expr} {v : Value} {node : CallNode}
    (he : e.eval .eager registry (callResult ⟨m, .eager, lexing⟩ registry n) scope = .ok v)
    (h : registry.Reaches e node) :
    (∃ f, registry.get? node.name = some f ∧ f.arity = node.args) ∧
      ∃ k, registry.Answers m lexing k node.name := by
  induction h with
  | here hn =>
    obtain ⟨f, vs, w, hf, harity, hw⟩ := e.returns_of_mem_calls he hn
    exact ⟨⟨f, hf, harity⟩, n, f, vs, w, hf, hw⟩
  | through h hf hn ih =>
    obtain ⟨-, k, fn, args, w, hf', hw⟩ := ih
    cases hf.symm.trans hf'
    cases k with
    | zero => cases hw
    | succ k =>
      obtain ⟨g, vs, x, hg, harity, hx⟩ := Expr.returns_of_mem_calls _ hw hn
      exact ⟨⟨g, hg, harity⟩, k, g, vs, x, hg, hx⟩

end

/-- With eager branches, an expression that evaluates to a value leads only to calls of defined functions with
the right number of arguments, to no cycle of calls, and to no chain of more nested calls than allowed. So a
function that leads back to itself never returns. -/
theorem eager_call_graph (m : Nat) (lexing : Lexing) (registry : Registry) :
    (∀ (e : Expr) (scope : Scope) (trace : Trace) (v : Value),
      ((e.eval .eager registry (callAt ⟨m, .eager, lexing⟩ registry m) scope).run trace).1 = .ok v →
      (∀ node, registry.Reaches e node → ∃ f, registry.get? node.name = some f ∧ f.arity = node.args) ∧
      (∀ node, registry.Reaches e node → ¬ Relation.TransGen registry.Calls node.name node.name) ∧
      ∀ node ∈ e.calls, ∀ rest, List.IsChain registry.Calls (node.name :: rest) →
        (node.name :: rest).length ≤ m) ∧
    ∀ (name : String) (f : Function), registry.get? name = some f →
      Relation.TransGen registry.Calls name name → ∀ (n : Nat) (args : List Value) (trace : Trace) (v : Value),
      ((callAt ⟨m, .eager, lexing⟩ registry n f args).run trace).1 ≠ .ok v := by
  constructor
  · intro e scope trace v h
    rw [e.yields_eval (yields_callAt ⟨m, .eager, lexing⟩ registry m) scope trace] at h
    refine ⟨fun node hnode => (hnode.answers h).1, fun node hnode => ?_, fun node hnode rest hrest => ?_⟩
    · obtain ⟨-, k, hk⟩ := hnode.answers h
      exact hk.not_transGen_self
    · obtain ⟨f, vs, w, hf, -, hw⟩ := e.returns_of_mem_calls h hnode
      have hanswers : registry.Answers m lexing m node.name := ⟨f, vs, w, hf, hw⟩
      exact hanswers.length_le hrest
  · intro name f hf hcycle n args trace v h
    rw [yields_callAt ⟨m, .eager, lexing⟩ registry n f args trace] at h
    have hanswers : registry.Answers m lexing n name := ⟨f, args, v, hf, h⟩
    exact hanswers.not_transGen_self hcycle

/-- The call of `g` is in a branch that is not selected. -/
theorem eager_call_graph_nested :
    let registry : Registry :=
      [⟨"f", ["n"], .cond 0 (.var 0 "n") (.num 0 1) (.call 0 "g" [.var 0 "n"])⟩,
        ⟨"g", ["n"], .binary 0 .mul (.var 0 "n") (.var 0 "n")⟩, ⟨"loop", [], .call 0 "loop" []⟩]
    let e : Expr := .call 0 "f" [.num 0 3]
    ((e.eval .eager registry (callAt ⟨2, .eager, .strict⟩ registry 2) Scope.root).run []).1 = .ok 1 ∧
    registry.Reaches e ⟨"g", 1⟩ ∧ (∃ f, registry.get? "g" = some f ∧ f.arity = 1) ∧
    ¬ Relation.TransGen registry.Calls "g" "g" ∧
    List.IsChain registry.Calls ["f", "g"] ∧ ["f", "g"].length ≤ 2 ∧
    Relation.TransGen registry.Calls "loop" "loop" ∧
    ((callAt ⟨2, .eager, .strict⟩ registry 2 ⟨"loop", [], .call 0 "loop" []⟩ []).run []).1 ≠ .ok 0 := by
  intro registry e
  have he : ((e.eval .eager registry (callAt ⟨2, .eager, .strict⟩ registry 2) Scope.root).run []).1 = .ok 1 := by
    cbv
  have hf : ⟨"f", 1⟩ ∈ e.calls := by decide
  have hg : registry.Reaches e ⟨"g", 1⟩ := .through (.here hf) rfl (by decide)
  have hfg : registry.Calls "f" "g" := ⟨_, rfl, ⟨"g", 1⟩, by decide, rfl⟩
  have hchain : List.IsChain registry.Calls ["f", "g"] := by simpa using hfg
  have hloop : Relation.TransGen registry.Calls "loop" "loop" :=
    .single ⟨_, rfl, ⟨"loop", 0⟩, by decide, rfl⟩
  obtain ⟨hdefined, hacyclic, hdeep⟩ := (eager_call_graph 2 .strict registry).1 e Scope.root [] 1 he
  exact ⟨he, hg, hdefined _ hg, hacyclic _ hg, hchain, hdeep _ hf ["g"] hchain, hloop,
    (eager_call_graph 2 .strict registry).2 "loop" _ rfl hloop 2 [] [] 0⟩

end Octal
