import Octal.Expr

/-!
# Function registry

The functions of a session, ordered by name. A name has one function: defining it again replaces
the old one.
-/

namespace Octal

abbrev Registry := List Function

namespace Registry

def get? (r : Registry) (name : String) : Option Function := r.find? (·.name = name)

/-- Register `f`, replacing any function of its name. -/
def set (f : Function) : Registry → Registry
  | [] => [f]
  | g :: rest =>
    if f.name = g.name then f :: rest
    else if f.name < g.name then f :: g :: rest
    else g :: set f rest

def names (r : Registry) : List String := r.map (·.name)

end Registry

end Octal
