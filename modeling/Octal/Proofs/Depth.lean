import Mathlib
import Octal.Proofs.Failure
import Octal.Proofs.Session

/-!
# The limit on nested calls

`Finishes` says what evaluation without a limit comes to, and how many calls are active at one time at
most; of an evaluation that recurses forever it says nothing. With a limit, an evaluation that finishes
is cut off if its calls go deeper than the limit, and does not notice it otherwise (`Expr.Finishes.eval_eq`).
An evaluation that is not cut off finishes without a limit as well (`Expr.limit_or_finishes`).
-/

namespace Octal

section
variable (branches : Branches) (registry : Registry)

mutual

/-- Without a limit, the expression comes to `r` in `scope`, and `d` is the greatest number of calls that are
active at one time. -/
inductive Expr.Finishes : Scope → Expr → Nat → Except Error Value → Prop where
  | num {scope pos value} : Finishes scope (.num pos value) 0 (.ok value)
  | var {scope pos name} : Finishes scope (.var pos name) 0 (scope.lookup name)
  | neg {scope pos e d r} (he : Finishes scope e d r) : Finishes scope (.neg pos e) d (r >>= Value.neg)
  | left {scope pos op l r d cause} (hl : Finishes scope l d (.error cause)) :
      Finishes scope (.binary pos op l r) d (.error cause)
  | binary {scope pos op l r d d' a x} (hl : Finishes scope l d (.ok a)) (hr : Finishes scope r d' x) :
      Finishes scope (.binary pos op l r) (max d d') (x >>= op.apply a)
  | test {scope pos test whenTrue whenFalse d cause} (ht : Finishes scope test d (.error cause)) :
      Finishes scope (.cond pos test whenTrue whenFalse) d (.error cause)
  | selected {scope pos test whenTrue whenFalse d d' c x} (hb : branches = .lazy)
      (ht : Finishes scope test d (.ok c)) (hs : Finishes scope (if c != 0 then whenTrue else whenFalse) d' x) :
      Finishes scope (.cond pos test whenTrue whenFalse) (max d d') x
  | firstBranch {scope pos test whenTrue whenFalse d d' c cause} (hb : branches = .eager)
      (ht : Finishes scope test d (.ok c)) (hw : Finishes scope whenTrue d' (.error cause)) :
      Finishes scope (.cond pos test whenTrue whenFalse) (max d d') (.error cause)
  | bothBranches {scope pos test whenTrue whenFalse d d' d'' c t x} (hb : branches = .eager)
      (ht : Finishes scope test d (.ok c)) (hw : Finishes scope whenTrue d' (.ok t))
      (he : Finishes scope whenFalse d'' x) :
      Finishes scope (.cond pos test whenTrue whenFalse) (max d (max d' d''))
        (x >>= fun e => .ok (if c != 0 then t else e))
  | bound {scope pos name value body d cause} (hv : Finishes scope value d (.error cause)) :
      Finishes scope (.bind pos name value body) d (.error cause)
  | bind {scope pos name value body d d' v x} (hv : Finishes scope value d (.ok v))
      (hb : Finishes (scope.enclosed.bind name v) body d' x) :
      Finishes scope (.bind pos name value body) (max d d') x
  | undefined {scope pos name args} (hf : registry.get? name = none) :
      Finishes scope (.call pos name args) 0 (.error (.undefinedFunction name))
  | arguments {scope pos name args f d cause} (hf : registry.get? name = some f)
      (ha : FinishesAll scope args d (.error cause)) :
      Finishes scope (.call pos name args) d (.error cause)
  | arity {scope pos name args f d vs} (hf : registry.get? name = some f)
      (ha : FinishesAll scope args d (.ok vs)) (hn : vs.length ≠ f.arity) :
      Finishes scope (.call pos name args) d (.error (.wrongArity f.name f.arity vs.length))
  /-- A call becomes active when its arguments are known. -/
  | call {scope pos name args f d d' vs x} (hf : registry.get? name = some f)
      (ha : FinishesAll scope args d (.ok vs)) (hn : vs.length = f.arity)
      (hb : Finishes (Scope.ofParams f.params vs) f.body d' x) :
      Finishes scope (.call pos name args) (max d (d' + 1)) x

inductive Expr.FinishesAll : Scope → List Expr → Nat → Except Error (List Value) → Prop where
  | nil {scope} : FinishesAll scope [] 0 (.ok [])
  | head {scope e rest d cause} (he : Finishes scope e d (.error cause)) :
      FinishesAll scope (e :: rest) d (.error cause)
  | cons {scope e rest d d' v x} (he : Finishes scope e d (.ok v)) (hr : FinishesAll scope rest d' x) :
      FinishesAll scope (e :: rest) (max d d') (x >>= fun vs => .ok (v :: vs))

end

end

/-! ### Cutting off -/

section
variable {α β : Type} {limit : Int} {n d d' : Nat}

/-- What a limit leaves of a result, that takes `d` nested calls where `n` are allowed. -/
def cutOff (limit : Int) (n d : Nat) (r : Except Error α) : Except Error α :=
  if d ≤ n then r else .error (.depthExceeded limit)

theorem cutOff_zero (r : Except Error α) : cutOff limit n 0 r = r := if_pos (Nat.zero_le n)

theorem cutOff_bind (r : Except Error α) (k : α → Except Error β) :
    cutOff limit n d r >>= k = cutOff limit n d (r >>= k) := by
  unfold cutOff
  split <;> rfl

theorem cutOff_cutOff (r : Except Error α) :
    cutOff limit n d (cutOff limit n d' r) = cutOff limit n (max d d') r := by
  unfold cutOff
  by_cases hd : d ≤ n <;> simp [hd]

/-- One evaluation after the other goes as deep as the deeper one. -/
theorem cutOff_then {a : α} {k : α → Except Error β} {r : Except Error β} (hk : k a = cutOff limit n d' r) :
    cutOff limit n d (.ok a) >>= k = cutOff limit n (max d d') r := by
  rw [cutOff_bind, ← cutOff_cutOff, ← hk]
  rfl

end

section
variable {settings : Settings} {registry : Registry}

mutual

/-- With `n` calls allowed, an evaluation that finishes goes on as without a limit, or is cut off. -/
theorem Expr.Finishes.eval_eq {scope : Scope} {e : Expr} {d : Nat} {r : Except Error Value} (n : Nat) :
    e.Finishes settings.branches registry scope d r →
    e.eval settings.branches registry (callResult settings registry n) scope = cutOff settings.maxDepth n d r
  | .num | .var => (cutOff_zero _).symm
  | .neg he => by
    rw [Expr.eval, he.eval_eq n, cutOff_bind]
    rfl
  | .left hl => by
    rw [Expr.eval, hl.eval_eq n, cutOff_bind]
    rfl
  | .binary hl hr => by
    rw [Expr.eval, hl.eval_eq n]
    refine cutOff_then ?_
    rw [hr.eval_eq n, cutOff_bind]
    rfl
  | .test ht => by
    rw [Expr.eval, ht.eval_eq n, cutOff_bind]
    rfl
  | .selected hb ht hs => by
    have hs := hs.eval_eq n
    rw [Expr.eval, ht.eval_eq n]
    refine cutOff_then ?_
    rw [hb] at hs ⊢
    rwa [apply_ite (Expr.eval .lazy registry (callResult settings registry n) scope)] at hs
  | .firstBranch hb ht hw => by
    have hw := hw.eval_eq n
    rw [Expr.eval, ht.eval_eq n]
    refine cutOff_then ?_
    rw [hb] at hw ⊢
    simp only [hw, cutOff_bind]
    rfl
  | .bothBranches hb ht hw he => by
    have hw := hw.eval_eq n
    have he := he.eval_eq n
    rw [Expr.eval, ht.eval_eq n]
    refine cutOff_then ?_
    rw [hb] at hw he ⊢
    simp only [hw, he]
    exact cutOff_then (cutOff_bind _ _)
  | .bound hv => by
    rw [Expr.eval, hv.eval_eq n, cutOff_bind]
    rfl
  | .bind hv hb => by
    rw [Expr.eval, hv.eval_eq n]
    exact cutOff_then (hb.eval_eq n)
  | .undefined hf => by
    rw [Expr.eval, hf, cutOff_zero]
    rfl
  | .arguments hf ha => by
    rw [Expr.eval, hf]
    simp only [ha.evalAll_eq n, cutOff_bind]
    rfl
  | .arity hf ha hn => by
    rw [Expr.eval, hf]
    simp only [ha.evalAll_eq n, cutOff_bind]
    exact congrArg (cutOff _ n _) (if_neg hn)
  | .call hf ha hn hb => by
    rw [Expr.eval, hf]
    simp only [ha.evalAll_eq n]
    refine cutOff_then ?_
    rw [if_pos hn]
    -- The body has one call fewer to nest, and the call itself makes up for it.
    cases n with
    | zero => rfl
    | succ n =>
      rw [callResult_succ, hb.eval_eq n]
      simp [cutOff]

theorem Expr.FinishesAll.evalAll_eq {scope : Scope} {es : List Expr} {d : Nat}
    {r : Except Error (List Value)} (n : Nat) :
    FinishesAll settings.branches registry scope es d r →
    Expr.evalAll settings.branches registry (callResult settings registry n) scope es =
      cutOff settings.maxDepth n d r
  | .nil => (cutOff_zero _).symm
  | .head he => by
    rw [Expr.evalAll, he.eval_eq n, cutOff_bind]
    rfl
  | .cons he hr => by
    rw [Expr.evalAll, he.eval_eq n]
    refine cutOff_then ?_
    rw [hr.evalAll_eq n, cutOff_bind]
    rfl

end

end

/-! ### Finishing -/

section
variable {α β : Type} {limit : Int}

/-- `x` is the error of the limit, or what `Finish` says that evaluation comes to without one. -/
def LimitOr (limit : Int) (Finish : Nat → Except Error α → Prop) (x : Except Error α) : Prop :=
  x = .error (.depthExceeded limit) ∨ ∃ d, Finish d x

theorem LimitOr.bind {Finish : Nat → Except Error α → Prop} {Finish' : Nat → Except Error β → Prop}
    {x : Except Error α} {k : α → Except Error β} (hx : LimitOr limit Finish x)
    (herror : ∀ {d cause}, Finish d (.error cause) → ∃ d', Finish' d' (.error cause))
    (hok : ∀ {d a}, Finish d (.ok a) → LimitOr limit Finish' (k a)) : LimitOr limit Finish' (x >>= k) := by
  rcases hx with rfl | ⟨d, hd⟩
  · exact .inl rfl
  · cases x with
    | error cause => exact .inr (herror hd)
    | ok a => exact hok hd

end

section
variable {branches : Branches} {registry : Registry} {call : Function → List Value → Except Error Value}
  {limit : Int}

mutual

theorem Expr.limit_or_finishes
    (h : ∀ f vs, LimitOr limit (f.body.Finishes branches registry (Scope.ofParams f.params vs)) (call f vs))
    (scope : Scope) : (e : Expr) →
    LimitOr limit (e.Finishes branches registry scope) (e.eval branches registry call scope)
  | .num .. => .inr ⟨0, .num⟩
  | .var .. => .inr ⟨0, .var⟩
  | .neg _ e => (e.limit_or_finishes h scope).bind (fun he => ⟨_, .neg he⟩) fun he => .inr ⟨_, .neg he⟩
  | .binary _ op l r =>
    (l.limit_or_finishes h scope).bind (fun hl => ⟨_, .left hl⟩) fun hl =>
      (r.limit_or_finishes h scope).bind (fun hr => ⟨_, .binary hl hr⟩) fun hr => .inr ⟨_, .binary hl hr⟩
  | .cond _ test whenTrue whenFalse => by
    have htrue := whenTrue.limit_or_finishes h scope
    have hfalse := whenFalse.limit_or_finishes h scope
    rw [eval]
    refine (test.limit_or_finishes h scope).bind (fun ht => ⟨_, .test ht⟩) fun {_ c} ht => ?_
    cases branches with
    | lazy =>
      have hselected : LimitOr limit ((if c != 0 then whenTrue else whenFalse).Finishes .lazy registry scope)
          (if c != 0 then whenTrue.eval .lazy registry call scope
            else whenFalse.eval .lazy registry call scope) := by
        split <;> assumption
      rcases hselected with hs | ⟨d, hs⟩
      · exact .inl hs
      · exact .inr ⟨_, .selected rfl ht hs⟩
    | eager =>
      refine htrue.bind (fun hw => ⟨_, .firstBranch rfl ht hw⟩) fun hw => ?_
      exact hfalse.bind (fun he => ⟨_, .bothBranches rfl ht hw he⟩) fun he =>
        .inr ⟨_, .bothBranches rfl ht hw he⟩
  | .bind _ name value body => by
    rw [eval]
    refine (value.limit_or_finishes h scope).bind (fun hv => ⟨_, .bound hv⟩) fun {_ v} hv => ?_
    rcases body.limit_or_finishes h (scope.enclosed.bind name v) with hb | ⟨d, hb⟩
    · exact .inl hb
    · exact .inr ⟨_, .bind hv hb⟩
  | .call _ name args => by
    have hargs := Expr.limit_or_finishesAll h scope args
    rw [eval]
    cases hf : registry.get? name with
    | none => exact .inr ⟨0, .undefined hf⟩
    | some f =>
      refine hargs.bind (fun ha => ⟨_, .arguments hf ha⟩) fun {_ vs} ha => ?_
      by_cases hn : vs.length = f.arity
      · rw [if_pos hn]
        rcases h f vs with hb | ⟨d, hb⟩
        · exact .inl hb
        · exact .inr ⟨_, .call hf ha hn hb⟩
      · rw [if_neg hn]
        exact .inr ⟨_, .arity hf ha hn⟩

theorem Expr.limit_or_finishesAll
    (h : ∀ f vs, LimitOr limit (f.body.Finishes branches registry (Scope.ofParams f.params vs)) (call f vs))
    (scope : Scope) : (es : List Expr) →
    LimitOr limit (FinishesAll branches registry scope es) (Expr.evalAll branches registry call scope es)
  | [] => .inr ⟨0, .nil⟩
  | e :: rest =>
    (e.limit_or_finishes h scope).bind (fun he => ⟨_, .head he⟩) fun he =>
      (Expr.limit_or_finishesAll h scope rest).bind (fun hr => ⟨_, .cons he hr⟩) fun hr =>
        .inr ⟨_, .cons he hr⟩

end

end

theorem limit_or_finishes_call (settings : Settings) (registry : Registry) (n : Nat) (f : Function)
    (args : List Value) :
    LimitOr settings.maxDepth (f.body.Finishes settings.branches registry (Scope.ofParams f.params args))
      (callResult settings registry n f args) := by
  induction n generalizing f args with
  | zero => exact .inl rfl
  | succ n ih => exact f.body.limit_or_finishes ih _

/-! ### Statements -/

def Statement.Finishes (branches : Branches) (registry : Registry) (d : Nat) (r : Except Error Value) :
    Statement → Prop
  | .eval e => e.Finishes branches registry Scope.root d r
  | .define _ _ => d = 0 ∧ r = .ok 0

/-- Without a limit, the statements come to `r` and leave the functions `registry'`, `last` being the value
before them, and `d` is the greatest number of calls that are active at one time. -/
inductive Performs (branches : Branches) :
    Registry → Value → List Statement → Nat → Except Error Value → Registry → Prop where
  | nil {registry last} : Performs branches registry last [] 0 (.ok last) registry
  | head {registry last s rest d cause} (hs : s.Finishes branches registry d (.error cause)) :
      Performs branches registry last (s :: rest) d (.error cause) registry
  | cons {registry registry' last s rest d d' v r} (hs : s.Finishes branches registry d (.ok v))
      (hr : Performs branches (s.register registry) v rest d' r registry') :
      Performs branches registry last (s :: rest) (max d d') r registry'

/-- Without a limit, the program comes to `r` and leaves the functions `registry'`. -/
def Program.Finishes (branches : Branches) (registry : Registry) (p : Program) (d : Nat)
    (r : Except Error Value) (registry' : Registry) : Prop :=
  ∃ x, Performs branches registry 0 p.statements d x registry' ∧ r = faulted p.ending x

section
variable {settings : Settings} {registry registry' : Registry} {last : Value} {ss : List Statement} {d : Nat}
  {r : Except Error Value}

theorem Statement.Finishes.result_eq {s : Statement} (h : s.Finishes settings.branches registry d r) :
    s.result settings registry = cutOff settings.maxDepth settings.maxDepth d r := by
  cases s with
  | eval e => exact Expr.Finishes.eval_eq settings.maxDepth h
  | define =>
    obtain ⟨rfl, rfl⟩ := h
    exact (cutOff_zero _).symm

theorem Statement.limit_or_finishes (settings : Settings) (registry : Registry) (s : Statement) :
    LimitOr settings.maxDepth (fun d r => s.Finishes settings.branches registry d r)
      (s.result settings registry) := by
  cases s with
  | eval e => exact e.limit_or_finishes (limit_or_finishes_call settings registry settings.maxDepth) _
  | define => exact .inr ⟨0, rfl, rfl⟩

/-- Statements that need no more calls than allowed do what they do without a limit. -/
theorem Performs.perform_eq (settings : Settings)
    (h : Performs settings.branches registry last ss d r registry') (hd : d ≤ settings.maxDepth) :
    perform settings registry last ss = (r, registry') := by
  induction h with
  | nil => rfl
  | head hs =>
    rw [perform_cons, hs.result_eq, cutOff, if_pos hd]
  | cons hs hr ih =>
    rw [perform_cons, hs.result_eq, cutOff, if_pos (by omega)]
    exact ih (by omega)

/-- Statements that need more calls than allowed are cut off. -/
theorem Performs.perform_exceeds (settings : Settings)
    (h : Performs settings.branches registry last ss d r registry') (hd : settings.maxDepth < d) :
    (perform settings registry last ss).1 = .error (.depthExceeded settings.maxDepth) := by
  induction h with
  | nil => omega
  | head hs =>
    rw [perform_cons, hs.result_eq, cutOff, if_neg (by omega)]
  | @cons _ _ _ _ _ d d' _ _ hs hr ih =>
    rw [perform_cons, hs.result_eq, cutOff]
    by_cases hd' : d ≤ settings.maxDepth
    · rw [if_pos hd']
      exact ih (by omega)
    · rw [if_neg hd']

theorem limit_or_performs (settings : Settings) (registry : Registry) (last : Value) (ss : List Statement) :
    (perform settings registry last ss).1 = .error (.depthExceeded settings.maxDepth) ∨
      ∃ d r registry', Performs settings.branches registry last ss d r registry' := by
  induction ss generalizing registry last with
  | nil => exact .inr ⟨_, _, _, .nil⟩
  | cons s ss ih =>
    rw [perform_cons]
    rcases s.limit_or_finishes settings registry with hs | ⟨d, hs⟩
    · exact .inl (by rw [hs])
    cases hr : s.result settings registry with
    | error cause =>
      rw [hr] at hs
      exact .inr ⟨_, _, _, .head hs⟩
    | ok v =>
      rw [hr] at hs
      rcases ih (s.register registry) v with h | ⟨d', r, registry', h⟩
      · exact .inl h
      · exact .inr ⟨_, _, _, .cons hs h⟩

/-- Without a limit nothing fails with the error of the limit: two limits that are high enough would
have to be the same one. -/
theorem Performs.ne_depthExceeded {branches : Branches} (h : Performs branches registry last ss d r registry')
    (limit : Int) : r ≠ .error (.depthExceeded limit) := by
  rintro rfl
  have exceeded (m : Nat) (hm : d ≤ m) : limit = m := by
    have hm := congrArg Prod.fst (Performs.perform_eq ⟨m, branches, .strict⟩ h hm)
    rcases error_of_perform hm with ((h | h | h) | ⟨_, h⟩ | ⟨_, h⟩ | ⟨_, _, _, h⟩) | h <;> cases h
    rfl
  have := exceeded d (Nat.le_refl d)
  have := exceeded (d + 1) (by omega)
  omega

end

/-! ### Sources -/

theorem faulted_ne_depthExceeded {fault : Option Error} {x : Except Error Value} (limit : Int)
    (hx : x ≠ .error (.depthExceeded limit)) (hf : fault ≠ some (.depthExceeded limit)) :
    faulted fault x ≠ .error (.depthExceeded limit) := by
  intro h
  rcases error_of_faulted h with h | h
  · exact hx h
  · exact hf h

/-- What is wrong with a text has nothing to do with calls. -/
theorem Program.ending_ne_depthExceeded (lexing : Lexing) (text : Bytes) (limit : Int) :
    (Program.parse lexing (.complete text)).ending ≠ some (.depthExceeded limit) := by
  intro h
  cases Program.ending_of_depthExceeded h

namespace Session

/-- The limit on nested calls only cuts evaluation off. Where evaluation without a limit does not finish, it
is cut off by every limit; where it finishes, with no more than `d` calls active at one time, it is cut off by
the limits below `d` and comes to the same under all others. -/
theorem outcome_of_maxDepth (registry : Registry) (branches : Branches) (lexing : Lexing) (text : Bytes) :
    ((¬ ∃ d r registry', (Program.parse lexing (.complete text)).Finishes branches registry d r registry') ∧
      ∀ m, ((Session.mk ⟨m, branches, lexing⟩ registry).outcome (.complete text)).result =
        .error (.depthExceeded m)) ∨
    ∃ d r registry', (Program.parse lexing (.complete text)).Finishes branches registry d r registry' ∧
      (∀ limit, r ≠ .error (.depthExceeded limit)) ∧
      ∀ m,
        (m < d → ((Session.mk ⟨m, branches, lexing⟩ registry).outcome (.complete text)).result =
          .error (.depthExceeded m)) ∧
        (d ≤ m → ((Session.mk ⟨m, branches, lexing⟩ registry).outcome (.complete text)).result = r ∧
          ((Session.mk ⟨m, branches, lexing⟩ registry).outcome (.complete text)).registry = registry') := by
  have hending := Program.ending_ne_depthExceeded lexing text
  have outcome_eq (m : Nat) : (Session.mk ⟨m, branches, lexing⟩ registry).outcome (.complete text) =
      (Session.mk ⟨m, branches, lexing⟩ registry).run (.parse lexing (.complete text)) := rfl
  simp only [outcome_eq, result_run_eq, registry_run]
  generalize Program.parse lexing (.complete text) = p at hending ⊢
  by_cases h : ∃ d x registry', Performs branches registry 0 p.statements d x registry'
  · obtain ⟨d, x, registry', h⟩ := h
    refine .inr ⟨d, _, registry', ⟨x, h, rfl⟩, fun limit => ?_, fun m => ⟨fun hm => ?_, fun hm => ?_⟩⟩
    · exact faulted_ne_depthExceeded limit (h.ne_depthExceeded limit) (hending limit)
    · rw [Performs.perform_exceeds ⟨m, branches, lexing⟩ h hm]
      rfl
    · rw [Performs.perform_eq ⟨m, branches, lexing⟩ h hm]
      exact ⟨rfl, rfl⟩
  · refine .inl ⟨fun ⟨d, r, registry', x, hx, _⟩ => h ⟨d, x, registry', hx⟩, fun m => ?_⟩
    rcases limit_or_performs ⟨m, branches, lexing⟩ registry 0 p.statements with hm | hm
    · rw [hm]
      rfl
    · exact absurd hm h

/-- Three calls are active at one time, the last of them with the argument 0. -/
theorem outcome_of_maxDepth_countdown :
    ((Session.mk ⟨2, .lazy, .strict⟩ []).outcome
      (.complete (Bytes.ofString "DEF down(n) = IF n THEN 1 + down(n - 1) ELSE 0; down(2)"))).result =
        .error (.depthExceeded 2) ∧
    ∀ m, 3 ≤ m → ((Session.mk ⟨m, .lazy, .strict⟩ []).outcome
      (.complete (Bytes.ofString "DEF down(n) = IF n THEN 1 + down(n - 1) ELSE 0; down(2)"))).result = .ok 2 := by
  have htwo : ((Session.mk ⟨2, .lazy, .strict⟩ []).outcome
      (.complete (Bytes.ofString "DEF down(n) = IF n THEN 1 + down(n - 1) ELSE 0; down(2)"))).result =
        .error (.depthExceeded 2) := by cbv
  have hthree : ((Session.mk ⟨3, .lazy, .strict⟩ []).outcome
      (.complete (Bytes.ofString "DEF down(n) = IF n THEN 1 + down(n - 1) ELSE 0; down(2)"))).result = .ok 2 := by
    cbv
  refine ⟨htwo, fun m hm => ?_⟩
  rcases outcome_of_maxDepth [] .lazy .strict
      (Bytes.ofString "DEF down(n) = IF n THEN 1 + down(n - 1) ELSE 0; down(2)") with
    ⟨-, h⟩ | ⟨d, r, registry', -, -, h⟩
  · exact absurd (hthree.symm.trans (h 3)) (by simp)
  · have hd : d ≤ 3 := by
      by_contra hd
      exact absurd (hthree.symm.trans ((h 3).1 (by omega))) (by simp)
    have hr : r = .ok 2 := ((h 3).2 hd).1.symm.trans hthree
    rw [← hr]
    exact ((h m).2 (by omega)).1

end Session

end Octal
