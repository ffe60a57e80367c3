import Octal.Text.Blank
import Octal.Text.LowerCase
import Octal.Text.Quoted

/-!
# Log records

Records of what the calculator does, as lines of `key=value` pairs. A handler writes records of at
least its level, with the attributes it has collected; a filter puts a level of its own in front of a
handler. Wrapping a filter replaces it, so that filters do not stack.
-/

namespace Octal

namespace Log

/-- How important a record is. There are levels between the four that have names, and beyond them. -/
structure Level where
  rank : Int
deriving DecidableEq, Repr

namespace Level

def debug : Level := ⟨-4⟩
def info : Level := ⟨0⟩
def warn : Level := ⟨4⟩
def error : Level := ⟨8⟩

instance : LE Level where
  le a b := a.rank ≤ b.rank

instance (a b : Level) : Decidable (a ≤ b) := inferInstanceAs (Decidable (a.rank ≤ b.rank))

/-- Whether a handler at level `minimum` takes records of level `l`. -/
def admits (minimum l : Level) : Bool := minimum ≤ l

/-- A named level and the distance from it, such as `INFO+2`. -/
def nameFrom (base : String) (distance : Int) : String :=
  if distance = 0 then base
  else if distance < 0 then base ++ toString distance
  else base ++ "+" ++ toString distance

/-- The name of the level, told from the named level at or below it; `DEBUG` stands for all that is lower. -/
def name (l : Level) : String :=
  if l.rank < info.rank then nameFrom "DEBUG" (l.rank - debug.rank)
  else if l.rank < warn.rank then nameFrom "INFO" (l.rank - info.rank)
  else if l.rank < error.rank then nameFrom "WARN" (l.rank - warn.rank)
  else nameFrom "ERROR" (l.rank - error.rank)

/-- The level that a setting names, in any case and between white space. -/
def ofString? (s : String) : Option Level :=
  match Text.lowerCase (Text.trimString s) with
  | "debug" => some debug
  | "info" => some info
  | "warn" | "warning" => some warn
  | "error" => some error
  | _ => none

end Level

abbrev Attribute := String × String

structure Record where
  level : Level
  message : String
  attributes : List Attribute
deriving DecidableEq, Repr

/-- Characters that cannot stand in a bare key or value. -/
def needsQuotes (c : Char) : Bool :=
  if c.toNat < 0x80 then c.toNat ≤ 0x20 || c == '"' || c == '='
  else c == Char.ofNat 0xFFFD || Text.isBlank c || !Text.isPrintable c

/-- A key or value: as it is, or in quotes where a reader could not tell its end. -/
def field (s : String) : String :=
  if s.isEmpty || s.toList.any needsQuotes then Text.quote s else s

/-- An attribute and the groups that it is in, outermost first. -/
structure Placed where
  groups : List String
  name : String
  value : String
deriving DecidableEq, Repr

namespace Placed

def place (groups : List String) (a : Attribute) : Placed := ⟨groups, a.1, a.2⟩

/-- The name led by the groups. Without a name of its own it stands in quotes. -/
def key (p : Placed) : String :=
  let whole := String.join (p.groups.map (· ++ ".")) ++ p.name
  if p.name.isEmpty then Text.quote whole else field whole

def pair (p : Placed) : String := p.key ++ "=" ++ field p.value

end Placed

/-- A handler for records. -/
inductive Handler where
  /-- Write records of level `minimum` and above. `attributes` go before those of the record, and
  later attributes are in `groups`. -/
  | text (minimum : Level) (attributes : List Placed) (groups : List String)
  | filter (level : Level) (inner : Handler)
deriving DecidableEq, Repr

namespace Handler

/-- A text handler that has collected nothing. -/
def plain (minimum : Level) : Handler := text minimum [] []

/-- Put a filter in front of `h`, in place of one that is there. -/
def wrap (level : Level) : Handler → Handler
  | filter _ inner => filter level inner
  | h => filter level h

def withAttributes (as : List Attribute) : Handler → Handler
  | text minimum attributes groups =>
    text minimum (attributes ++ as.map (Placed.place groups)) groups
  | filter level inner => wrap level (inner.withAttributes as)

def withAttribute (a : Attribute) (h : Handler) : Handler := h.withAttributes [a]

/-- Open a group. A group without a name is none. -/
def withGroup (name : String) : Handler → Handler
  | text minimum attributes groups =>
    text minimum attributes (if name.isEmpty then groups else groups ++ [name])
  | filter level inner => wrap level (inner.withGroup name)

def enabled (l : Level) : Handler → Bool
  | text minimum _ _ => minimum.admits l
  | filter level inner => level.admits l && inner.enabled l

/-- The line for a record. -/
def line (r : Record) : Handler → String
  | text _ attributes groups =>
    let own := [("level", r.level.name), ("msg", r.message)].map (Placed.place [])
    let pairs := own ++ attributes ++ r.attributes.map (Placed.place groups)
    " ".intercalate (pairs.map Placed.pair)
  | filter _ inner => inner.line r

/-- The lines written for a record: one, or none when its level is not enabled. -/
def write (r : Record) (h : Handler) : List String :=
  if h.enabled r.level then [h.line r] else []

end Handler

end Log

end Octal
