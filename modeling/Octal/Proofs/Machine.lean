import Octal.Machine
import Octal.Proofs.Evaluation

/-!
# Evaluation with frames and a counter

An evaluator that keeps frames and counts its calls does what evaluation in a scope does: it comes to the same result
and records the same events, as soon as its fuel suffices for the calls that may still be nested (`Machine.eval_eq`,
`Machine.run_eq`). Afterwards it counts as many calls as before, whether or not it has failed, and the frames that there
were are as they were.

The evaluator is told the number of a frame where evaluation is told a scope. What belongs together depends on the
frames that there are, and frames are added all the time; but a frame that is there goes on reading as it does
(`Frames.Reads.mono`).
-/

namespace Octal

/-! ### Frames that are added -/

namespace Frames
variable {fs fs' : Frames} {i : Nat} {scope : Scope}

/-- Frame `i` and the frames around it are there, and have the bindings of the scope. -/
structure Reads (fs : Frames) (i : Nat) (scope : Scope) : Prop where
  present : ∀ j ∈ fs.chain i, j < fs.size
  scope_eq : fs.scope i = scope

theorem getElem?_of_isPrefix (h : fs.toList <+: fs'.toList) (hi : i < fs.size) : fs'.toList[i]? = fs.toList[i]? := by
  obtain ⟨more, h⟩ := h
  rw [← h, List.getElem?_append_left hi]

theorem size_le_of_isPrefix (h : fs.toList <+: fs'.toList) : fs.size ≤ fs'.size := h.length_le

/-- A frame that is there keeps its scope when frames are added. -/
theorem Reads.mono (hr : fs.Reads i scope) (h : fs.toList <+: fs'.toList) : fs'.Reads i scope := by
  have hchain : fs'.chain i = fs.chain i := by
    unfold chain
    rw [getElem?_of_isPrefix h (hr.present i List.mem_cons_self)]
  refine ⟨fun j hj => ?_, ?_⟩
  · rw [hchain] at hj
    exact Nat.lt_of_lt_of_le (hr.present j hj) (size_le_of_isPrefix h)
  · rw [← hr.scope_eq, Frames.scope, Frames.scope, hchain]
    refine List.map_congr_left fun j hj => ?_
    unfold bindings
    rw [getElem?_of_isPrefix h (hr.present j hj)]

/-- The frames and one more. -/
def push (fs : Frames) (f : Frame) : Frames := ⟨fs.toList ++ [f]⟩

theorem prefix_push (fs : Frames) (f : Frame) : fs.toList <+: (fs.push f).toList := List.prefix_append _ _

theorem bind_push (fs : Frames) (f : Frame) (name : String) (v : Value) :
    (fs.push f).bind fs.size name v = fs.push { f with bindings := (name, v) :: f.bindings } := by
  unfold push bind size
  rw [List.modify_eq_take_cons_drop (by simp)]
  simp

theorem bindAll_push (fs : Frames) (f : Frame) (ps : Bindings) :
    ps.foldl (fun frames (name, value) => frames.bind fs.size name value) (fs.push f) =
      fs.push { f with bindings := ps.reverse ++ f.bindings } := by
  induction ps generalizing f with
  | nil => rfl
  | cons p ps ih =>
    obtain ⟨name, value⟩ := p
    show ps.foldl _ ((fs.push f).bind fs.size name value) = _
    rw [bind_push, ih, List.reverse_cons, List.append_assoc]
    rfl

theorem reads_push (fs : Frames) {f : Frame} (hf : ∀ j ∈ f.outer, j < fs.size) :
    (fs.push f).Reads fs.size (f.bindings :: f.outer.map fs.bindings) := by
  have hlast : (fs.push f).toList[fs.size]? = some f := by
    unfold push size
    simp
  have hchain : (fs.push f).chain fs.size = fs.size :: f.outer := by
    rw [chain, hlast]
    rfl
  have hsize : (fs.push f).size = fs.size + 1 := List.length_append
  refine ⟨fun j hj => ?_, ?_⟩
  · rw [hchain] at hj
    rw [hsize]
    rcases List.mem_cons.1 hj with rfl | hj
    · exact Nat.lt_succ_self _
    · exact Nat.lt_succ_of_lt (hf j hj)
  · have hnew : (fs.push f).bindings fs.size = f.bindings := by
      rw [bindings, hlast]
      rfl
    rw [scope, hchain, List.map_cons, hnew]
    congr 1
    refine List.map_congr_left fun j hj => ?_
    unfold bindings
    rw [getElem?_of_isPrefix (fs.prefix_push f) (hf j hj)]

end Frames

/-! ### What one operation does -/

namespace Exec
variable {α β : Type} {depth : Nat} {fs : Frames}

/-- On a machine that counts `depth` calls and has the frames of `fs`, and perhaps more, `x` comes to what `y` comes to,
and records the same. It leaves the count as it was, and all the frames that there were. -/
def Refines (depth : Nat) (fs : Frames) (x : Exec α) (y : Eval α) : Prop :=
  ∀ frames trace, fs.toList <+: frames.toList → ∃ frames', frames.toList <+: frames'.toList ∧
    x.run ⟨frames, depth, trace⟩ = some ((y.run trace).1, ⟨frames', depth, (y.run trace).2⟩)

theorem run_bind (x : Exec α) (k : α → Exec β) (m : Machine) :
    (x >>= k).run m = match x.run m with
      | none => none
      | some (.ok a, m') => (k a).run m'
      | some (.error e, m') => some (.error e, m') := by
  show (x.run m).bind (fun p => (ExceptT.bindCont k p.1).run p.2) = _
  rcases x.run m with _ | ⟨_ | _, m'⟩ <;> rfl

namespace Refines

theorem lift (r : Except Error α) : Refines depth fs (liftM r) (liftM r) :=
  fun frames _ _ => ⟨frames, List.prefix_rfl, rfl⟩

theorem bind {x : Exec α} {y : Eval α} {k : α → Exec β} {k' : α → Eval β} (hx : Refines depth fs x y)
    (hk : ∀ a, Refines depth fs (k a) (k' a)) : Refines depth fs (x >>= k) (y >>= k') := by
  intro frames trace h
  obtain ⟨frames', h', hrun⟩ := hx frames trace h
  rw [run_bind, hrun, Eval.run_bind]
  rcases y.run trace with ⟨r, trace'⟩
  cases r with
  | error e => exact ⟨frames', h', rfl⟩
  | ok a =>
    obtain ⟨frames'', h'', hrun'⟩ := hk a frames' trace' (h.trans h')
    exact ⟨frames'', h'.trans h'', hrun'⟩

theorem record (e : Event) : Refines depth fs (Exec.record e) (note e) :=
  fun frames _ _ => ⟨frames, List.prefix_rfl, rfl⟩

theorem get {k : Machine → Exec α} {y : Eval α} (hk : ∀ m : Machine, m.depth = depth → Refines depth fs (k m) y) :
    Refines depth fs (MonadState.get >>= k) y :=
  fun frames trace h => hk ⟨frames, depth, trace⟩ rfl frames trace h

/-- The count is one higher inside, and is taken back whatever comes out. -/
theorem counted {x : Exec α} {y : Eval α} (hx : Refines (depth + 1) fs x y) : Refines depth fs (counted x) y := by
  intro frames trace h
  obtain ⟨frames', h', hrun⟩ := hx frames trace h
  refine ⟨frames', h', ?_⟩
  show (x.run ⟨frames, depth + 1, trace⟩).bind (fun p => some (p.1, { p.2 with depth := p.2.depth - 1 })) = _
  rw [hrun]
  rfl

/-- Frames are added in the middle of a computation, so what follows is asked for with more frames. -/
theorem newFrame {params : List String} {args : List Value} {k : Nat → Exec α} {y : Eval α}
    (hk : ∀ fs' i, fs'.Reads i (Scope.ofParams params args) → Refines depth fs' (k i) y) :
    Refines depth fs (newFrame params args >>= k) y := by
  intro frames trace h
  have hreads := frames.reads_push (f := ⟨(params.zip args).reverse, []⟩) (by simp)
  rw [List.map_nil, ← Scope.ofParams_eq] at hreads
  obtain ⟨frames', h', hrun⟩ := hk _ _ hreads _ trace List.prefix_rfl
  refine ⟨frames', (frames.prefix_push _).trans h', ?_⟩
  rw [← hrun, run_bind]
  have hbind := frames.bindAll_push ⟨[], []⟩ (params.zip args)
  rw [List.append_nil] at hbind
  rw [← hbind]
  rfl

end Refines

/-- Evaluation in a frame refines evaluation in the scope that it reads as. -/
def refines (depth : Nat) : Simulation Exec Eval Frames where
  Rel fs _ x y := Refines depth fs x y
  Reads := Frames.Reads
  pure _ _ a := .lift (.ok a)
  bind := .bind
  lift _ _ r _ := .lift r
  lookup hr name frames trace h := by
    refine ⟨frames, List.prefix_rfl, ?_⟩
    show some (frames.lookup _ name, (⟨frames, depth, trace⟩ : Machine)) = _
    rw [Frames.lookup, (hr.mono h).scope_eq]
    rfl
  within {_ i scope} hr name v k k' hk frames trace h := by
    have hr := hr.mono h
    have hreads : (frames.push ⟨[(name, v)], frames.chain i⟩).Reads frames.size (scope.enclosed.bind name v) := by
      rw [← hr.scope_eq]
      exact frames.reads_push hr.present
    obtain ⟨frames', h', hrun⟩ := hk _ _ _ hreads _ trace List.prefix_rfl
    refine ⟨frames', (frames.prefix_push _).trans h', ?_⟩
    have hbind := frames.bind_push ⟨[], frames.chain i⟩ name v
    rw [← hbind] at hrun
    exact hrun

end Exec

/-! ### Calls and statements -/

namespace Machine

open Exec (Refines)

variable (settings : Settings) (registry : Registry) {fuel : Nat}

/-- The calls that the count leaves are those that may still be nested. -/
theorem refines_call {depth : Nat} (hfuel : settings.maxDepth - depth < fuel) (fs : Frames) (f : Function)
    (args : List Value) :
    Refines depth fs (call settings registry fuel f args)
      (callAt settings registry (settings.maxDepth - depth) f args) := by
  induction fuel generalizing depth fs f args with
  | zero => omega
  | succ fuel ih =>
    rw [call]
    refine .counted (.get fun m hm => ?_)
    by_cases hlimit : settings.maxDepth < m.depth
    · have hnone : settings.maxDepth - depth = 0 := by omega
      rw [if_pos hlimit, hnone]
      exact .lift _
    · have hsome : settings.maxDepth - depth = settings.maxDepth - (depth + 1) + 1 := by omega
      have hdepth : settings.maxDepth - (settings.maxDepth - (depth + 1)) = depth + 1 := by omega
      rw [if_neg hlimit, hsome, callAt, hdepth, hm]
      refine .newFrame fun fs' i hreads => .bind (.record _) fun _ => ?_
      have hcall (fs : Frames) (g : Function) (vs : List Value) :
          Refines (depth + 1) fs (call settings registry fuel g vs)
            (callAt settings registry (settings.maxDepth - (depth + 1)) g vs) := ih (by omega) fs g vs
      refine .bind ((Exec.refines (depth + 1)).eval hcall f.body hreads) fun v => ?_
      refine .get fun m' hm' => ?_
      rw [hm']
      exact .bind (.record _) fun _ => .lift (.ok v)

theorem refines_value (hfuel : settings.maxDepth < fuel) (fs : Frames) (s : Statement) :
    Refines 0 fs (value settings registry fuel s) (s.value settings registry) := by
  refine .newFrame fun fs' i hreads => ?_
  cases s with
  | eval e => exact (Exec.refines 0).eval (refines_call settings registry hfuel) e hreads
  | define pos f => exact .bind (.record _) fun _ => .lift (.ok 0)

/-- An evaluation that begins in any frame, with any number of calls active, comes to what it comes to in the scope of
that frame with the calls that are left, and records the same events. It leaves the count as it was, and all the frames
that there were. -/
theorem eval_eq (m : Machine) {i : Nat} (hi : ∀ j ∈ m.frames.chain i, j < m.frames.size)
    (hfuel : settings.maxDepth - m.depth < fuel) (e : Expr) :
    ∃ frames, m.frames.toList <+: frames.toList ∧
      (e.eval settings.branches registry (call settings registry fuel) i).run m =
        let done := (e.eval settings.branches registry (callAt settings registry (settings.maxDepth - m.depth))
          (m.frames.scope i)).run m.trace
        some (done.1, ⟨frames, m.depth, done.2⟩) :=
  (Exec.refines m.depth).eval (refines_call settings registry hfuel) e ⟨hi, rfl⟩ m.frames m.trace List.prefix_rfl

theorem execute_eq (hfuel : settings.maxDepth < fuel) (frames : Frames) (trace : Trace) (last : Value)
    (ss : List Statement) :
    ∃ frames', frames.toList <+: frames'.toList ∧
      execute settings fuel registry ⟨frames, 0, trace⟩ last ss =
        let done := Octal.execute settings registry trace last ss
        some (done.result, done.registry, ⟨frames', 0, done.trace⟩) := by
  induction ss generalizing registry frames trace last with
  | nil => exact ⟨frames, List.prefix_rfl, rfl⟩
  | cons s ss ih =>
    obtain ⟨frames', h, hrun⟩ := refines_value settings registry hfuel frames s frames trace List.prefix_rfl
    rw [execute, hrun, Octal.execute]
    rcases (s.value settings registry).run trace with ⟨r, trace'⟩
    cases r with
    | error e => exact ⟨frames', h, rfl⟩
    | ok v =>
      obtain ⟨frames'', h', hrest⟩ := ih (s.register registry) frames' (.statement s v :: trace') v
      exact ⟨frames'', h.trans h', hrest⟩

/-- Evaluating statements on a machine comes to what executing them comes to, whatever the machine has done before. No
call is left to count, whether or not a statement fails. -/
theorem run_eq (hfuel : settings.maxDepth < fuel) (m : Machine) (ss : List Statement) :
    ∃ frames, m.frames.toList <+: frames.toList ∧
      run settings fuel registry m ss =
        let done := Octal.execute settings registry m.trace 0 ss
        some (done.result, done.registry, ⟨frames, 0, done.trace⟩) :=
  execute_eq settings registry hfuel m.frames m.trace 0 ss

/-- The third call is one too many. The frames are those of the two statements, and of the parameter and the binding in
each of the two calls before it. -/
example :
    let f : Function := ⟨"f", ["x"], .bind 0 "y" (.var 0 "x") (.call 0 "f" [.var 0 "y"])⟩
    (run ⟨2, .eager, .strict⟩ 3 [] ⟨.empty, 7, []⟩ [.define 0 f, .eval (.call 0 "f" [.num 0 1])]).map
        (fun (r, _, m) => (r, m.depth, m.frames.toList.map Frame.bindings)) =
      some (.error (.depthExceeded 2), 0, [[], [], [("x", 1)], [("y", 1)], [("x", 1)], [("y", 1)]]) := by
  rfl

end Machine

end Octal
