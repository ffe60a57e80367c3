import Octal.Evaluation

/-!
# The state of an evaluator

Between two steps an evaluator has the frames that it has made, the number of calls that are active
and the events that it has recorded. A call counts itself while it runs, however it ends, and it fails
if that is one too many. Variables are looked up in numbered frames, and no frame is ever taken away.

The recursion is bounded by fuel. A computation for which it does not suffice has no outcome, but it
suffices as soon as it is more than the limit on calls.
-/

namespace Octal

structure Machine where
  frames : Frames
  /-- How many calls are active. -/
  depth : Nat
  trace : Trace

/-- A computation that changes a machine. -/
abbrev Exec := ExceptT Error (StateT Machine Option)

namespace Exec

/-- No outcome. -/
def exhausted {α : Type} : Exec α := ExceptT.mk fun _ => none

def record (e : Event) : Exec Unit := modify fun m => { m with trace := e :: m.trace }

/-- Make a frame with no frame around it, and bind the parameters in it. -/
def newFrame (params : List String) (args : List Value) : Exec Nat := do
  let i := (← get).frames.size
  modify fun m => { m with
    frames := (params.zip args).foldl (fun fs (name, value) => fs.bind i name value) m.frames.new }
  pure i

/-- Count a call while it runs, whether it then gives a value or fails. -/
def counted {α : Type} (x : Exec α) : Exec α := ExceptT.mk do
  modify fun m => { m with depth := m.depth + 1 }
  let r ← x.run
  modify fun m => { m with depth := m.depth - 1 }
  pure r

instance : Scoping Exec Nat where
  lookup i name := do
    let m ← get
    liftM (m.frames.lookup i name)
  within i name value next := do
    let inner := (← get).frames.size
    modify fun m => { m with frames := (m.frames.enclose i).bind inner name value }
    next inner

end Exec

namespace Machine

open Exec

/-- Call a function. The depth is read off the machine, before and after the body is evaluated. -/
def call (settings : Settings) (registry : Registry) : Nat → Function → List Value → Exec Value
  | 0, _, _ => exhausted
  | fuel + 1, f, args => counted do
    let m ← get
    if settings.maxDepth < m.depth then throw (.depthExceeded settings.maxDepth)
    else
      let scope ← newFrame f.params args
      record (.call f.name m.depth)
      let v ← f.body.eval settings.branches registry (call settings registry fuel) scope
      record (.ret f.name (← get).depth v)
      pure v

/-- The value of a statement, which has a frame of its own. -/
def value (settings : Settings) (registry : Registry) (fuel : Nat) (s : Statement) : Exec Value := do
  let scope ← newFrame [] []
  match s with
  | .eval e => e.eval settings.branches registry (call settings registry fuel) scope
  | .define _ f =>
    record (.define f.name f.arity)
    pure 0

/-- Execute statements in order up to the first that fails, `last` being the value of the one
before them. -/
def execute (settings : Settings) (fuel : Nat) (registry : Registry) (m : Machine) (last : Value) :
    List Statement → Option (Except Error Value × Registry × Machine)
  | [] => some (.ok last, registry, m)
  | s :: rest =>
    match (value settings registry fuel s).run m with
    | none => none
    | some (.ok v, m) =>
      execute settings fuel (s.register registry) { m with trace := .statement s v :: m.trace } v rest
    | some (.error e, m) => some (.error e, registry, m)

/-- Evaluate statements. No call is active at the start, whatever was counted before. -/
def run (settings : Settings) (fuel : Nat) (registry : Registry) (m : Machine) (ss : List Statement) :
    Option (Except Error Value × Registry × Machine) :=
  execute settings fuel registry { m with depth := 0 } 0 ss

end Machine

end Octal
