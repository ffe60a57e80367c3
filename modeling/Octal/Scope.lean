import Octal.Arithmetic

/-!
# Scopes

Where variables get their values. A scope is a chain of frames, innermost first; a name is looked up
in the nearest frame that binds it. `Frames` keeps many scopes at once: frames that are made one by
one, each with its outer frames, and that any number of inner frames share.
-/

namespace Octal

/-- The bindings of one frame, newest first. -/
abbrev Bindings := List (String × Value)

/-- A chain of frames, innermost first. -/
abbrev Scope := List Bindings

namespace Scope

/-- A scope of one frame without bindings. -/
def root : Scope := [[]]

/-- `outer` with a new frame inside it. -/
def enclosed (outer : Scope) : Scope := [] :: outer

/-- Bind `name` in the innermost frame. -/
def bind (name : String) (value : Value) : Scope → Scope
  | [] => [[(name, value)]]
  | frame :: outer => ((name, value) :: frame) :: outer

def lookup (name : String) : Scope → Except Error Value
  | [] => .error (.unboundVariable name)
  | frame :: outer =>
    match List.lookup name frame with
    | some value => .ok value
    | none => lookup name outer

/-- The scope of a function's body: one frame with the parameters. -/
def ofParams (params : List String) (args : List Value) : Scope :=
  (params.zip args).foldl (fun scope (name, value) => scope.bind name value) root

end Scope

/-- A frame and the numbers of the frames around it, nearest first. -/
structure Frame where
  bindings : Bindings
  outer : List Nat
deriving DecidableEq, Repr

/-- Frames by number, in order of creation. -/
structure Frames where
  toList : List Frame
deriving DecidableEq, Repr

namespace Frames

def empty : Frames := ⟨[]⟩

/-- How many frames there are, which is the number of the next one. -/
def size (fs : Frames) : Nat := fs.toList.length

def bindings (fs : Frames) (i : Nat) : Bindings := (fs.toList[i]?.map Frame.bindings).getD []

/-- Frame `i` and the frames around it. -/
def chain (fs : Frames) (i : Nat) : List Nat := i :: (fs.toList[i]?.map Frame.outer).getD []

/-- Add a frame with no frame around it. -/
def new (fs : Frames) : Frames := ⟨fs.toList ++ [⟨[], []⟩]⟩

/-- Add a frame inside frame `i`. -/
def enclose (fs : Frames) (i : Nat) : Frames := ⟨fs.toList ++ [⟨[], fs.chain i⟩]⟩

/-- Bind `name` in frame `i` only. -/
def bind (fs : Frames) (i : Nat) (name : String) (value : Value) : Frames :=
  ⟨fs.toList.modify i fun f => { f with bindings := (name, value) :: f.bindings }⟩

/-- The scope that begins at frame `i`. -/
def scope (fs : Frames) (i : Nat) : Scope := (fs.chain i).map fs.bindings

def lookup (fs : Frames) (i : Nat) (name : String) : Except Error Value :=
  (fs.scope i).lookup name

end Frames

end Octal
