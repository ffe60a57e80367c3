/-!
# Documents

The contents of a document, with the line on which each part begins. Lines count from 1.
-/

namespace Octal.Yaml

inductive Node where
  /-- A text. `tag` is the type it states, if any, and without one a text that is not plain is a
  string. -/
  | scalar (line : Nat) (tag : Option String) (isPlain : Bool) (text : String)
  | sequence (line : Nat) (tag : Option String) (items : List Node)
  | mapping (line : Nat) (tag : Option String) (entries : List (Node × Node))
  /-- A reference by `name` to the node with number `target`. -/
  | reference (line : Nat) (name : String) (target : Nat)
deriving Repr

namespace Node

/-- What stands where a document has nothing. -/
def absent (line : Nat) : Node := scalar line none true ""

def line : Node → Nat
  | scalar n _ _ _ | sequence n _ _ | mapping n _ _ | reference n _ _ => n

def isMapping : Node → Bool
  | mapping _ _ _ => true
  | _ => false

end Node

/-- A document: its contents, and the nodes that have names, by number. -/
structure Document where
  root : Node
  named : List (Nat × Node)
  /-- There are no more nodes than this. -/
  bound : Nat

namespace Document

/-- The node that `n` refers to, which is `n` itself unless it is a reference. -/
def resolve (d : Document) (n : Node) : Node :=
  match n with
  | .reference line _ target => (d.named.lookup target).getD (.absent line)
  | n => n

end Document

end Octal.Yaml
