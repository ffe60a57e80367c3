import Mathlib
import Octal.Proofs.Failure
import Octal.Proofs.Session

/-!
# Traces of calls

The calls and returns that an evaluation records are well bracketed, and the depth of a call is the number of calls that
are active with it (`Bracketed`). Which calls those are is said without the trace, by an evaluation that hands them down
and tells them when it fails (`Expr.resultAmid`). The calls of a trace that have not returned are exactly these
(`Session.trace_bracketed`).

A computation keeps its trace bracketed step by step (`Eval.Keeps`): each part of an expression begins with the same
active calls, and only a failure leaves others behind.
-/

namespace Octal

/-! ### Brackets -/

/-- A call that has begun: its function, and the number of calls that are active with it. -/
structure Activation where
  name : String
  depth : Nat
deriving DecidableEq, Repr

/-- The calls that have not returned, the latest first. -/
def unmatched : Trace → List Activation
  | [] => []
  | .call name depth :: earlier => ⟨name, depth⟩ :: unmatched earlier
  | .ret .. :: earlier => (unmatched earlier).tail
  | .define .. :: earlier | .statement .. :: earlier => unmatched earlier

/-- The event can happen while the calls of `active` have not returned. -/
def Event.Fits (limit : Nat) (active : List Activation) : Event → Prop
  | .call _ depth => depth = active.length + 1 ∧ 1 ≤ depth ∧ depth ≤ limit
  | .ret name depth _ => active.head? = some ⟨name, depth⟩
  | .define .. | .statement .. => active = []

/-- Every event fits what has happened before it. -/
def Bracketed (limit : Nat) : Trace → Prop
  | [] => True
  | e :: earlier => e.Fits limit (unmatched earlier) ∧ Bracketed limit earlier

namespace Bracketed
variable {limit : Nat} {trace : Trace}

theorem nil (limit : Nat) : Bracketed limit [] := trivial

theorem of_append {later : Trace} (h : Bracketed limit (later ++ trace)) : Bracketed limit trace := by
  induction later with
  | nil => exact h
  | cons e later ih => exact ih h.2

theorem range'_succ_reverse (n : Nat) : (List.range' 1 (n + 1)).reverse = (n + 1) :: (List.range' 1 n).reverse := by
  rw [List.range'_1_concat, List.reverse_append, List.reverse_singleton, List.singleton_append, Nat.add_comm]

/-- The calls that have not returned are numbered from 1, and the latest has the greatest number. -/
theorem depths (h : Bracketed limit trace) :
    (unmatched trace).map Activation.depth = (List.range' 1 (unmatched trace).length).reverse := by
  induction trace with
  | nil => rfl
  | cons e earlier ih =>
    have ih := ih h.2
    cases e with
    | call name depth =>
      obtain ⟨⟨hdepth, -⟩, -⟩ := h
      rw [unmatched, List.map_cons, List.length_cons, range'_succ_reverse, ih, hdepth]
    | ret name depth value =>
      rw [unmatched]
      cases hactive : unmatched earlier with
      | nil => rfl
      | cons a rest =>
        rw [hactive, List.map_cons, List.length_cons, range'_succ_reverse] at ih
        exact (List.cons.inj ih).2
    | define | statement => exact ih

/-- Nothing is active before the first call. -/
theorem depth_eq_one {name : String} {depth : Nat} {later earlier : Trace}
    (h : Bracketed limit (later ++ .call name depth :: earlier)) (hfirst : ∀ name depth, .call name depth ∉ earlier) :
    depth = 1 := by
  have hnone : unmatched earlier = [] := by
    clear h
    induction earlier with
    | nil => rfl
    | cons e earlier ih =>
      have ih := ih fun name depth hmem => hfirst name depth (List.mem_cons_of_mem _ hmem)
      cases e with
      | call name depth => exact absurd List.mem_cons_self (hfirst name depth)
      | ret => rw [unmatched, ih, List.tail_nil]
      | define | statement => exact ih
  obtain ⟨⟨hdepth, -⟩, -⟩ := of_append h
  rw [hdepth, hnone, List.length_nil]

end Bracketed

/-! ### Active calls -/

/-- How an evaluation fails: the cause, and the calls that are active then, the innermost first. -/
structure Breakdown where
  cause : Error
  active : List Activation

def Breakdown.amid {α : Type} (active : List Activation) (r : Except Error α) : Except Breakdown α :=
  r.mapError (⟨·, active⟩)

/-- An evaluation that is told which calls are active. -/
abbrev Amid := ReaderT (List Activation) (Except Breakdown)

instance : MonadLift (Except Error) Amid := ⟨fun r active => Breakdown.amid active r⟩

instance : Scoping Amid Scope := .ofScope Amid

/-- The body of a function is evaluated with its call active as well. -/
def Amid.inside (name : String) (body : Amid Value) : Amid Value := fun active =>
  body (⟨name, active.length + 1⟩ :: active)

def callAmid (settings : Settings) (registry : Registry) : Nat → Function → List Value → Amid Value :=
  callWith Amid.inside settings registry

def Statement.resultAmid (settings : Settings) (registry : Registry) (s : Statement) : Except Breakdown Value :=
  s.valueWith settings registry (callAmid settings registry settings.maxDepth) []

def performAmid (settings : Settings) (registry : Registry) (last : Value) (ss : List Statement) :
    Except Breakdown Value :=
  (performWith (fun registry s => s.resultAmid settings registry) registry last ss).1

/-- The value of a source. Between its statements no call is active. -/
def Session.resultAmid (s : Session) (src : Source) : Except Breakdown Value := do
  let p := Program.parse s.settings.lexing src
  let v ← performAmid s.settings s.registry 0 p.statements
  match p.ending with
  | none => .ok v
  | some cause => .error ⟨cause, []⟩

/-! ### What a computation keeps -/

section
variable {α β : Type}

/-- A result and a trace that are left by an evaluation that comes to `r`, begun with the calls of `active`. Only the
limit on calls fails it with the error of the limit. -/
inductive Leaves (limit : Nat) (active : List Activation) : Except Breakdown α → Except Error α × Trace → Prop
  | ok {a : α} {trace : Trace} (htrace : Bracketed limit trace) (hactive : unmatched trace = active) :
    Leaves limit active (.ok a) (.ok a, trace)
  | error {b : Breakdown} {trace : Trace} (htrace : Bracketed limit trace) (hactive : unmatched trace = b.active)
    (hlimit : ∀ n, b.cause = .depthExceeded n → n = limit ∧ b.active.length = limit) :
    Leaves limit active (.error b) (.error b.cause, trace)

theorem Leaves.bracketed {limit : Nat} {active : List Activation} {r : Except Breakdown α}
    {done : Except Error α × Trace} (h : Leaves limit active r done) : Bracketed limit done.2 := by
  cases h <;> assumption

/-- Begun with the calls of `active` on a bracketed trace, the computation comes to `r`. -/
def Eval.Keeps (limit : Nat) (active : List Activation) (x : Eval α) (r : Except Breakdown α) : Prop :=
  ∀ trace, Bracketed limit trace → unmatched trace = active → Leaves limit active r (x.run trace)

namespace Eval.Keeps
variable {limit : Nat} {active : List Activation}

theorem pure (a : α) : Keeps limit active (Pure.pure a) (.ok a) := fun _ => .ok

theorem throw {e : Error} (he : ∀ n, e = .depthExceeded n → n = limit ∧ active.length = limit) :
    Keeps limit active (MonadExcept.throw e : Eval α) (.error ⟨e, active⟩) :=
  fun _ htrace hactive => .error htrace hactive he

theorem lift {r : Except Error α} (hr : ∀ e, r = .error e → e.IsEvaluation) :
    Keeps limit active (liftM r) (Breakdown.amid active r) := by
  cases r with
  | ok a => exact pure a
  | error e =>
    refine throw ?_
    rintro n rfl
    rcases hr _ rfl with (h | h | h) | ⟨_, h⟩ | ⟨_, h⟩ | ⟨_, _, _, h⟩ <;> cases h

theorem bind {x : Eval α} {r : Except Breakdown α} {k : α → Eval β} {k' : α → Except Breakdown β}
    (hx : x.Keeps limit active r) (hk : ∀ a, (k a).Keeps limit active (k' a)) :
    (x >>= k).Keeps limit active (r >>= k') := by
  intro trace htrace hactive
  have hleaves := hx trace htrace hactive
  rw [Eval.run_bind]
  generalize x.run trace = done at hleaves ⊢
  cases hleaves with
  | @ok a trace' htrace' hactive' => exact hk a trace' htrace' hactive'
  | error htrace' hactive' hlimit => exact .error htrace' hactive' hlimit

/-- A call is active while its body is evaluated, and no longer. -/
theorem call {x : Eval Value} {r : Except Breakdown Value} {name : String} (hlimit : active.length < limit)
    (hx : x.Keeps limit (⟨name, active.length + 1⟩ :: active) r) :
    Keeps limit active (do
      note (.call name (active.length + 1))
      let v ← x
      note (.ret name (active.length + 1) v)
      Pure.pure v) r := by
  intro trace htrace hactive
  have hbegun : Bracketed limit (.call name (active.length + 1) :: trace) := by
    refine ⟨⟨by rw [hactive], ?_, ?_⟩, htrace⟩ <;> omega
  have hinside : unmatched (.call name (active.length + 1) :: trace) = ⟨name, active.length + 1⟩ :: active := by
    rw [unmatched, hactive]
  have hleaves := hx _ hbegun hinside
  have hnote : (note (.call name (active.length + 1))).run trace =
      (.ok (), .call name (active.length + 1) :: trace) := rfl
  rw [Eval.run_bind, hnote]
  simp only
  rw [Eval.run_bind]
  generalize x.run (.call name (active.length + 1) :: trace) = done at hleaves ⊢
  cases hleaves with
  | ok htrace' hactive' =>
    refine .ok ⟨?_, htrace'⟩ ?_
    · exact congrArg List.head? hactive'
    · exact congrArg List.tail hactive'
  | error htrace' hactive' hlimit => exact .error htrace' hactive' hlimit

end Eval.Keeps

end

/-! ### Evaluation -/

/-- The parts of an expression are evaluated while the same calls are active. -/
def Eval.keeps (limit : Nat) (active : List Activation) : Simulation Eval Amid Unit where
  Rel _ _ x r := x.Keeps limit active (r active)
  Reads _ scope scope' := scope = scope'
  pure _ _ a := .pure a
  bind := .bind
  lift _ _ _ hr := .lift hr
  lookup h name := by
    cases h
    exact .lift fun _ he => .inr (.inl ⟨_, Scope.error_of_lookup he⟩)
  within h _ _ _ _ hk := hk () _ _ (by rw [h])

section
variable (settings : Settings) (registry : Registry)

/-- The calls that are active and those that may still be nested make up the limit. -/
theorem keeps_callAt {remaining : Nat} {active : List Activation}
    (h : active.length + remaining = settings.maxDepth) (f : Function) (args : List Value) :
    (callAt settings registry remaining f args).Keeps settings.maxDepth active
      (callAmid settings registry remaining f args active) := by
  induction remaining generalizing active f args with
  | zero =>
    refine .throw fun n hn => ?_
    cases hn
    exact ⟨rfl, h⟩
  | succ remaining ih =>
    have hdepth : settings.maxDepth - remaining = active.length + 1 := by omega
    rw [callAt, hdepth]
    refine .call (by omega) ((Eval.keeps _ _).eval (fun _ => ih ?_) f.body (w := ()) rfl)
    rw [List.length_cons]
    omega

theorem Statement.keeps_value (s : Statement) :
    (s.value settings registry).Keeps settings.maxDepth [] (s.resultAmid settings registry) := by
  cases s with
  | eval e => exact (Eval.keeps _ []).eval (fun _ => keeps_callAt settings registry (Nat.zero_add _)) e (w := ()) rfl
  | define pos f => exact fun trace htrace hactive => .ok ⟨hactive, htrace⟩ hactive

theorem leaves_execute (last : Value) (ss : List Statement) {trace : Trace}
    (htrace : Bracketed settings.maxDepth trace) (hactive : unmatched trace = []) :
    Leaves settings.maxDepth [] (performAmid settings registry last ss)
      ((execute settings registry trace last ss).result, (execute settings registry trace last ss).trace) := by
  induction ss generalizing registry trace last with
  | nil => exact .ok htrace hactive
  | cons s ss ih =>
    have hleaves := s.keeps_value settings registry trace htrace hactive
    rw [execute, performAmid, performWith]
    generalize (s.value settings registry).run trace = done at hleaves ⊢
    generalize s.resultAmid settings registry = r at hleaves ⊢
    cases hleaves with
    | @ok v trace' htrace' hactive' => exact ih (s.register registry) v ⟨hactive', htrace'⟩ hactive'
    | error htrace' hactive' hlimit => exact .error htrace' hactive' hlimit

end

namespace Session

theorem trace_run (s : Session) (p : Program) :
    (s.run p).trace = (execute s.settings s.registry [] 0 p.statements).trace := by
  rw [run]
  (repeat' split) <;> rfl

theorem bracketed_outcome (s : Session) (src : Source) : Bracketed s.settings.maxDepth (s.outcome src).trace := by
  rw [outcome, trace_run]
  exact (leaves_execute s.settings s.registry 0 _ (.nil _) rfl).bracketed

/-- An evaluation leaves what is said of it, unless its reader fails with the error of the limit. -/
theorem leaves_outcome (s : Session) (src : Source) :
    Leaves s.settings.maxDepth [] (s.resultAmid src) ((s.outcome src).result, (s.outcome src).trace) ∨
      ∃ n, src.ending = .cutOff (.depthExceeded n) ∧ s.resultAmid src = .error ⟨.depthExceeded n, []⟩ ∧
        (s.outcome src).result = .error (.depthExceeded n) ∧ unmatched (s.outcome src).trace = [] := by
  have hresult : (s.outcome src).result = faulted (Program.parse s.settings.lexing src).ending
      (execute s.settings s.registry [] 0 (Program.parse s.settings.lexing src).statements).result := by
    rw [outcome, result_run_eq, ← execute_eq s.settings s.registry []]
  have hleaves := leaves_execute s.settings s.registry 0 (Program.parse s.settings.lexing src).statements (.nil _) rfl
  rw [hresult, outcome, trace_run, resultAmid]
  generalize (execute s.settings s.registry [] 0 _).result = result at hleaves ⊢
  generalize (execute s.settings s.registry [] 0 _).trace = trace at hleaves ⊢
  generalize performAmid s.settings s.registry 0 _ = r at hleaves ⊢
  cases hleaves with
  | error htrace hactive hlimit => exact .inl (.error htrace hactive hlimit)
  | ok htrace hactive =>
    cases hending : (Program.parse s.settings.lexing src).ending with
    | none => exact .inl (.ok htrace hactive)
    | some cause =>
      by_cases hcause : ∃ n, cause = .depthExceeded n
      · obtain ⟨n, rfl⟩ := hcause
        exact .inr ⟨n, Program.ending_of_depthExceeded hending, rfl, rfl, hactive⟩
      · exact .inl (.error htrace hactive fun n hn => absurd ⟨n, hn⟩ hcause)

/-- The calls and returns that an evaluation records are bracketed, with no call deeper than the limit, and no call is
active where a statement ends. If the evaluation fails, the calls that have not returned are those that are active then,
numbered from 1; and if the cause is the limit, there are as many as it allows. Whether or not it fails, the first call
of the next evaluation is the only one that is active. -/
theorem trace_bracketed (s : Session) (src : Source) :
    Bracketed s.settings.maxDepth (s.outcome src).trace ∧
    (∀ v, s.resultAmid src = .ok v → (s.outcome src).result = .ok v ∧ unmatched (s.outcome src).trace = []) ∧
    (∀ b, s.resultAmid src = .error b →
      (s.outcome src).result = .error b.cause ∧ unmatched (s.outcome src).trace = b.active ∧
      b.active.map Activation.depth = (List.range' 1 b.active.length).reverse ∧
      ∀ limit, b.cause = .depthExceeded limit → src.ending ≠ .cutOff b.cause →
        limit = s.settings.maxDepth ∧ b.active.length = s.settings.maxDepth) ∧
    ∀ next later name depth earlier, ((s.after src).outcome next).trace = later ++ .call name depth :: earlier →
      (∀ name depth, .call name depth ∉ earlier) → depth = 1 := by
  have hdepths := (s.bracketed_outcome src).depths
  refine ⟨s.bracketed_outcome src, fun v hv => ?_, fun b hb => ?_, ?_⟩
  · rcases s.leaves_outcome src with hleaves | ⟨n, -, hr, -⟩
    · rw [hv] at hleaves
      generalize (s.outcome src).result = result at hleaves ⊢
      cases hleaves with
      | ok htrace hactive => exact ⟨rfl, hactive⟩
    · cases hv.symm.trans hr
  · rcases s.leaves_outcome src with hleaves | ⟨n, hending, hr, hresult, hactive⟩
    · rw [hb] at hleaves
      generalize (s.outcome src).result = result at hleaves ⊢
      cases hleaves with
      | error htrace hactive hlimit =>
        rw [hactive] at hdepths
        exact ⟨rfl, hactive, hdepths, fun n hn _ => hlimit n hn⟩
    · cases hb.symm.trans hr
      exact ⟨hresult, hactive, rfl, fun _ _ hne => absurd hending hne⟩
  · intro next later name depth earlier htrace hfirst
    have hnext := (s.after src).bracketed_outcome next
    rw [htrace] at hnext
    exact hnext.depth_eq_one hfirst

/-- The second call is the last that may be active, and the third one fails. The call in the argument has returned. -/
example :
    unmatched ((Session.mk ⟨2, .eager, .strict⟩ []).outcome
      (.ofString "DEF one() = 1; DEF f(x) = 1 + f(x); f(one())")).trace = [⟨"f", 2⟩, ⟨"f", 1⟩] := by
  cbv

end Session

end Octal
