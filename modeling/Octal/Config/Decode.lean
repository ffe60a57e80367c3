import Octal.Config
import Octal.Yaml.Node.Build
import Octal.Yaml.Scalar

/-!
# Settings from documents

A document sets the fields that its entries name. Entries that name no field or have a value of the
wrong type are collected, so that a file is reported as a whole. The key `<<` merges other mappings
into its own: their entries count where the mapping has none of that name.
-/

namespace Octal.Config

open Yaml

/-- A fault in a well-formed document. -/
inductive Mismatch where
  | unknownField (line : Nat) (name : String)
  /-- A value of type `tag`, written as `text`, where `target` is needed. -/
  | wrongType (line : Nat) (tag text target : String)
  | duplicateKey (line : Nat) (name : String) (first : Nat)
  /-- A field that two different keys name. -/
  | fieldSet (line : Nat) (name : String)
deriving DecidableEq, Repr

/-- Why part of a document cannot be used. -/
inductive Refusal where
  | faults (faults : List Mismatch)
  /-- The whole document is malformed at a line. -/
  | malformed (line : Nat)
deriving DecidableEq, Repr

def sequenceTag : String := "!!seq"

def mappingTag : String := "!!map"

namespace Mismatch

/-- A value as shown in a message: long ones are cut after seven bytes. -/
def excerpt (text : String) : Bytes :=
  let bytes := Bytes.ofString text
  let shown := if 10 < bytes.length then bytes.take 7 ++ Bytes.ofString "..." else bytes
  Bytes.ofString " `" ++ shown ++ Bytes.ofString "`"

/-- The text of a value after its type. For collections it is bare. -/
def shown (tag text : String) : Bytes :=
  if tag = sequenceTag || tag = mappingTag then Bytes.ofString text else excerpt text

def message : Mismatch → Bytes
  | unknownField line name =>
    Bytes.ofString ("line " ++ line.repr ++ ": field " ++ name ++ " not found in type config.Config")
  | wrongType line tag text target =>
    Bytes.ofString ("line " ++ line.repr ++ ": cannot unmarshal " ++ tag) ++ shown tag text ++
      Bytes.ofString (" into " ++ target)
  | duplicateKey line name first =>
    Bytes.ofString ("line " ++ line.repr ++ ": mapping key " ++ Text.quote name ++
      " already defined at line " ++ first.repr)
  | fieldSet line name =>
    Bytes.ofString ("line " ++ line.repr ++ ": field " ++ name ++
      " already set in type config.Config")

end Mismatch

/-! ### Values -/

/-- What decides whether two keys are the same: the kind of node and its text. -/
def keyText : Node → Nat × String
  | .scalar _ _ _ text => (0, text)
  | .sequence _ _ _ => (1, "")
  | .mapping _ _ _ => (2, "")
  | .reference _ name _ => (3, name)

/-- Every pair of equal keys. -/
def duplicates : List Node → List Mismatch
  | [] => []
  | k :: rest =>
    let same := rest.filter fun k' => keyText k' == keyText k
    same.map (fun k' => .duplicateKey k'.line (keyText k').2 k.line) ++ duplicates rest

/-- The value of a text, whose tag has to fit. -/
def scalarValue (line : Nat) (tag : Option String) (isPlain : Bool) (text : String) :
    Except Refusal Scalar :=
  match Scalar.read? tag isPlain text with
  | some value => .ok value
  | none => .error (.malformed line)

/-- A value of the wrong type. A mapping with equal keys is reported for these only. -/
def mistyped (target : String) : Node → Refusal
  | .scalar line tag isPlain text =>
    .faults [.wrongType line (Scalar.tagOf tag isPlain text) text target]
  | .sequence line tag _ => .faults [.wrongType line (tag.getD sequenceTag) "" target]
  | .mapping line tag entries =>
    match duplicates (entries.map Prod.fst) with
    | [] => .faults [.wrongType line (tag.getD mappingTag) "" target]
    | faults => .faults faults
  | .reference line _ _ => .malformed line

/-- A text as it is written; none for a null. -/
def readText (n : Node) : Except Refusal (Option String) :=
  match n with
  | .scalar line tag isPlain text => do
    match ← scalarValue line tag isPlain text with
    | .null => return none
    | .str text => return some text
    | _ => return some text
  | n => .error (mistyped "string" n)

/-- An integer; none for a null. A number with a fraction loses it. -/
def readInt (n : Node) : Except Refusal (Option Int) :=
  let wrong := .error (mistyped "int" n)
  match n with
  | .scalar line tag isPlain text => do
    match ← scalarValue line tag isPlain text with
    | .null => return none
    | .int n => if n ≤ Int64.maxValue.toInt then return some n else wrong
    | .float x =>
      match x.toInteger? with
      | some n => return some n
      | none => wrong
    | _ => wrong
  | _ => wrong

/-! ### Fields -/

/-- Set the field called `name`; none when there is no such field. -/
def setField? (c : Config) (name : String) (value : Node) : Option (Except Refusal Config) :=
  let text := fun (set : String → Config) => (readText value).map fun t => (t.map set).getD c
  match name with
  | "max_depth" => some ((readInt value).map fun n => (n.map ({ c with maxDepth := · })).getD c)
  | "branches" => some (text ({ c with branches := · }))
  | "lexing" => some (text ({ c with lexing := · }))
  | "log_level" => some (text ({ c with logLevel := · }))
  | "transcript" => some (text ({ c with transcript := · }))
  | "history" => some (text ({ c with history := · }))
  | _ => none

/-- Settings as they are read. -/
structure Filling where
  config : Config
  /-- What is wrong so far. -/
  faults : List Mismatch
  /-- While a mapping is merged into others, the names that count no more. -/
  taken : Option (List String)

namespace Filling

def report (f : Filling) (faults : List Mismatch) : Filling := { f with faults := f.faults ++ faults }

/-- Go on after a part that cannot be used, unless the document is malformed. -/
def recover (f : Filling) (r : Except Refusal Filling) : Except Nat Filling :=
  match r with
  | .ok f => .ok f
  | .error (.faults faults) => .ok (f.report faults)
  | .error (.malformed line) => .error line

/-- Set the field called `name`, given the names set before by the same mapping. -/
def setField (f : Filling) (done : List String) (line : Nat) (name : String) (value : Node) :
    Except Nat Filling :=
  match setField? f.config name value with
  | none => .ok (f.report [.unknownField line name])
  | some result =>
    if done.contains name then .ok (f.report [.fieldSet line name])
    else f.recover (result.map fun config => { f with config })

/-- Apply entries in order. A null key names nothing, and merged entries count only for names that
are not taken. -/
def applyEntries (d : Document) (f : Filling) (done : List String) :
    List (Node × Node) → Except Nat Filling
  | [] => .ok f
  | (key, value) :: rest =>
    match readText (d.resolve key) with
    | .error (.malformed line) => .error line
    | .error (.faults faults) => applyEntries d (f.report faults) done rest
    | .ok none => applyEntries d f done rest
    | .ok (some name) =>
      if f.taken.any (·.contains name) then applyEntries d f done rest
      else do
        let f := { f with taken := f.taken.map (name :: ·) }
        let f ← f.setField done key.line name (d.resolve value)
        applyEntries d f (name :: done) rest

end Filling

/-! ### Merging -/

/-- Whether a key is the one whose value is merged. -/
def isMerge : Node → Bool
  | .scalar _ tag isPlain text =>
    text == Scalar.mergeKey && Scalar.tagOf tag isPlain text == Scalar.mergeTag
  | _ => false

/-- The names among the keys of a mapping. -/
def names (d : Document) (entries : List (Node × Node)) : List String :=
  entries.filterMap fun (key, _) =>
    match d.resolve key with
    | .scalar _ tag isPlain text =>
      match Scalar.read? tag isPlain text with
      | some (.str name) => some name
      | _ => none
    | _ => none

/-- The mappings that a value stands for when it is merged. -/
def mergeSources (d : Document) (value : Node) : Except Nat (List Node) :=
  let source := fun (n : Node) =>
    let n := d.resolve n
    if n.isMapping then Except.ok n else .error value.line
  match value with
  | .sequence _ _ items => items.mapM source
  | value => (source value).map ([·])

/-- Apply a mapping: its own entries first, and then what is merged into it. A mapping that is merged
into itself is malformed. -/
def applyMapping (d : Document) : Nat → Filling → Node → Except Nat Filling
  | 0, _, n => .error n.line
  | fuel + 1, f, n =>
    match n with
    | .mapping _ _ entries =>
      match duplicates (entries.map Prod.fst) with
      | [] => do
        let f ← f.applyEntries d [] (entries.filter fun (key, _) => !isMerge key)
        match entries.find? fun (key, _) => isMerge key with
        | none => return f
        | some (_, value) =>
          let sources ← mergeSources d value
          let taken := f.taken.getD (names d entries)
          let merged ← sources.foldlM (applyMapping d fuel) { f with taken := some taken }
          return { merged with taken := f.taken.bind fun _ => merged.taken }
      | faults => return f.report faults
    | n => .error n.line

/-- Apply a document. An empty one changes nothing. The error is the number of a line where the
document is malformed. -/
def applyDocument (c : Config) (d : Document) : Except Nat (Config × List Mismatch) := do
  let f : Filling := ⟨c, [], none⟩
  let f ←
    match d.root with
    | .mapping _ _ _ => applyMapping d d.bound f d.root
    | .scalar line tag isPlain text =>
      f.recover <| match scalarValue line tag isPlain text with
        | .ok .null => .ok f
        | .ok _ => .error (mistyped "config.Config" d.root)
        | .error refusal => .error refusal
    | n => f.recover (.error (mistyped "config.Config" n))
  return (f.config, f.faults)

end Octal.Config
