import Mathlib
import Octal.Proofs.Failure
import Octal.Proofs.Session

/-!
# Lazy and eager branches

Eager evaluation does all that lazy evaluation does and the branches that are not selected besides. They
can only make it fail: what eager evaluation succeeds with, lazy evaluation succeeds with (`Refines`), with
the same number of calls allowed. The induction is on that number first, since a call leads into a body
that is no part of the expression, and on the expression within it.
-/

namespace Octal

/-- What `x` succeeds with, `y` succeeds with. -/
def Refines {α : Type} (x y : Except Error α) : Prop := ∀ a, x = .ok a → y = .ok a

namespace Refines
variable {α β : Type} {x y : Except Error α}

theorem refl (x : Except Error α) : Refines x x := fun _ h => h

theorem bind {k k' : α → Except Error β} (h : Refines x y) (hk : ∀ a, Refines (k a) (k' a)) :
    Refines (x >>= k) (y >>= k') := by
  intro b hb
  obtain ⟨a, hx, ha⟩ := bind_eq_ok.1 hb
  exact bind_eq_ok.2 ⟨a, h a hx, hk a b ha⟩

end Refines

section
variable {registry : Registry} {call call' : Function → List Value → Except Error Value}

mutual

theorem Expr.refines_lazy (h : ∀ f vs, Refines (call f vs) (call' f vs)) (scope : Scope) : (e : Expr) →
    Refines (e.eval .eager registry call scope) (e.eval .lazy registry call' scope)
  | .num .. | .var .. => .refl _
  | .neg _ e => (e.refines_lazy h scope).bind fun _ => .refl _
  | .binary _ _ l r => (l.refines_lazy h scope).bind fun _ => (r.refines_lazy h scope).bind fun _ => .refl _
  | .cond _ test whenTrue whenFalse => by
    have htrue := whenTrue.refines_lazy h scope
    have hfalse := whenFalse.refines_lazy h scope
    rw [eval, eval]
    refine (test.refines_lazy h scope).bind fun c v hv => ?_
    obtain ⟨t, ht, hv⟩ := bind_eq_ok.1 hv
    obtain ⟨e, he, hv⟩ := bind_eq_ok.1 hv
    cases hv
    -- Both branches have a value; the lazy evaluation is that of the one which is selected.
    simp only
    split
    · exact htrue t ht
    · exact hfalse e he
  | .bind _ name value body =>
    (value.refines_lazy h scope).bind fun v => body.refines_lazy h (scope.enclosed.bind name v)
  | .call _ name args => by
    have hargs := Expr.refinesAll_lazy h scope args
    rw [eval, eval]
    cases registry.get? name with
    | none => exact .refl _
    | some f =>
      refine hargs.bind fun vs => ?_
      split
      · exact h f vs
      · exact .refl _

theorem Expr.refinesAll_lazy (h : ∀ f vs, Refines (call f vs) (call' f vs)) (scope : Scope) :
    (es : List Expr) →
    Refines (Expr.evalAll .eager registry call scope es) (Expr.evalAll .lazy registry call' scope es)
  | [] => .refl _
  | e :: rest =>
    (e.refines_lazy h scope).bind fun _ => (Expr.refinesAll_lazy h scope rest).bind fun _ => .refl _

end

end

section
variable (m : Nat) (lexing : Lexing)

theorem callResult_refines_lazy (registry : Registry) (remaining : Nat) (f : Function) (args : List Value) :
    Refines (callResult ⟨m, .eager, lexing⟩ registry remaining f args)
      (callResult ⟨m, .lazy, lexing⟩ registry remaining f args) := by
  induction remaining generalizing f args with
  | zero => exact .refl _
  | succ remaining ih => exact f.body.refines_lazy ih _

theorem Statement.refines_lazy (registry : Registry) (s : Statement) :
    Refines (s.result ⟨m, .eager, lexing⟩ registry) (s.result ⟨m, .lazy, lexing⟩ registry) := by
  cases s with
  | eval e => exact e.refines_lazy (callResult_refines_lazy m lexing registry m) _
  | define => exact .refl _

theorem perform_lazy_of_eager {registry registry' : Registry} {last v : Value} {ss : List Statement}
    (h : perform ⟨m, .eager, lexing⟩ registry last ss = (.ok v, registry')) :
    perform ⟨m, .lazy, lexing⟩ registry last ss = (.ok v, registry') := by
  induction ss generalizing registry last with
  | nil => exact h
  | cons s ss ih =>
    rw [perform_cons] at h ⊢
    cases hs : s.result ⟨m, .eager, lexing⟩ registry with
    | error cause =>
      rw [hs] at h
      cases h
    | ok w =>
      rw [hs] at h
      rw [s.refines_lazy m lexing registry w hs]
      exact ih h

end

namespace Session

/-- What a session with eager branches evaluates a source to, one with lazy branches evaluates it to as well,
and both are left with the same functions. So where lazy evaluation fails, eager evaluation fails. -/
theorem outcome_lazy_of_eager (registry : Registry) (m : Nat) (lexing : Lexing) (src : Source) :
    (∀ v, ((Session.mk ⟨m, .eager, lexing⟩ registry).outcome src).result = .ok v →
      ((Session.mk ⟨m, .lazy, lexing⟩ registry).outcome src).result = .ok v ∧
      ((Session.mk ⟨m, .lazy, lexing⟩ registry).outcome src).registry =
        ((Session.mk ⟨m, .eager, lexing⟩ registry).outcome src).registry) ∧
    ∀ cause, ((Session.mk ⟨m, .lazy, lexing⟩ registry).outcome src).result = .error cause →
      ∃ cause', ((Session.mk ⟨m, .eager, lexing⟩ registry).outcome src).result = .error cause' := by
  have agree (v : Value) (h : ((Session.mk ⟨m, .eager, lexing⟩ registry).outcome src).result = .ok v) :
      ((Session.mk ⟨m, .lazy, lexing⟩ registry).outcome src).result = .ok v ∧
      ((Session.mk ⟨m, .lazy, lexing⟩ registry).outcome src).registry =
        ((Session.mk ⟨m, .eager, lexing⟩ registry).outcome src).registry := by
    simp only [outcome, result_run_eq, registry_run] at h ⊢
    obtain ⟨hending, hresult⟩ := faulted_eq_ok.1 h
    have hlazy := perform_lazy_of_eager m lexing (Prod.ext hresult rfl)
    rw [hlazy, hending]
    exact ⟨rfl, rfl⟩
  refine ⟨agree, fun cause hlazy => ?_⟩
  cases heager : ((Session.mk ⟨m, .eager, lexing⟩ registry).outcome src).result with
  | error cause' => exact ⟨cause', rfl⟩
  | ok v =>
    rw [(agree v heager).1] at hlazy
    cases hlazy

theorem outcome_lazy_of_eager_both_branches :
    ((Session.mk ⟨1, .eager, .strict⟩ []).outcome
      (.ofString "DEF f(n) = IF n < 3 THEN n ELSE 7; f(2) + f(5)")).result = .ok 9 ∧
    ((Session.mk ⟨1, .lazy, .strict⟩ []).outcome
      (.ofString "DEF f(n) = IF n < 3 THEN n ELSE 7; f(2) + f(5)")).result = .ok 9 ∧
    ((Session.mk ⟨1, .lazy, .strict⟩ []).outcome (.ofString "IF 1 THEN 1 / 0 ELSE 2")).result =
      .error .divisionByZero ∧
    ∃ cause, ((Session.mk ⟨1, .eager, .strict⟩ []).outcome (.ofString "IF 1 THEN 1 / 0 ELSE 2")).result =
      .error cause := by
  have heager : ((Session.mk ⟨1, .eager, .strict⟩ []).outcome
      (.ofString "DEF f(n) = IF n < 3 THEN n ELSE 7; f(2) + f(5)")).result = .ok 9 := by cbv
  have hlazy : ((Session.mk ⟨1, .lazy, .strict⟩ []).outcome (.ofString "IF 1 THEN 1 / 0 ELSE 2")).result =
      .error .divisionByZero := by cbv
  exact ⟨heager, ((outcome_lazy_of_eager [] 1 .strict _).1 9 heager).1, hlazy,
    (outcome_lazy_of_eager [] 1 .strict _).2 _ hlazy⟩

end Session

end Octal
