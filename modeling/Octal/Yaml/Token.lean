/-!
# Tokens of documents

The parts that a document is read as. Block collections have no brackets of their own; their
beginnings and ends are told by indentation, and so are tokens without text.
-/

namespace Octal.Yaml

namespace Token

inductive Form where
  | streamEnd
  /-- The mark `---`. -/
  | documentStart
  /-- The mark `...`. -/
  | documentEnd
  | version (major minor : Nat)
  /-- A declaration that tags written with `handle` begin with `stem`. -/
  | tagHandle (handle stem : String)
  | blockSequence
  | blockMapping
  | blockEnd
  | flowSequence
  | flowSequenceEnd
  | flowMapping
  | flowMappingEnd
  /-- A dash before an item. -/
  | item
  | comma
  /-- The beginning of a key, written as a question mark or not at all. -/
  | key
  /-- A colon before a value. -/
  | value
  | anchor (name : String)
  | reference (name : String)
  | tag (handle suffix : String)
  /-- A text, which is plain when it has no quotes and is no block. -/
  | scalar (text : String) (isPlain : Bool)
deriving DecidableEq, Repr

end Token

/-- A token and the line where it begins. -/
structure Token where
  line : Nat
  form : Token.Form
deriving DecidableEq, Repr

end Octal.Yaml
