import Octal.Yaml.Node
import Octal.Yaml.Stream

/-!
# Reading documents

The first document of a text is built from its tokens, looking at one of them at a time. The rest of
the text is not read. The result is the number of a line when the document is malformed there.
-/

namespace Octal.Yaml

/-- A document as it is built. -/
structure Building where
  stream : Stream
  /-- What handles of tags stand for. -/
  handles : List (String × String)
  /-- The number of nodes that have a name. -/
  count : Nat
  /-- The number of the node that has a name at present. -/
  names : List (String × Nat)
  named : List (Nat × Node)

abbrev Build := StateT Building (Except Nat)

namespace Build

/-- The next token. -/
def peek : Build Token := do
  let b ← get
  let stream ← b.stream.ready
  set { b with stream }
  match stream.queue with
  | t :: _ => return t
  | [] => throw stream.cursor.line

/-- Move over the next token. -/
def drop : Build Unit := modify fun b => { b with stream := b.stream.drop }

/-- Fail at a token. -/
def fail {α : Type} (t : Token) : Build α := throw t.line

/-! ### Properties -/

/-- The prefix of the types that the language itself defines. -/
def coreStem : String := "tag:yaml.org,2002:"

/-- Types of the language are written with two exclamation marks. -/
def shorten (tag : String) : String :=
  if tag.startsWith coreStem then "!!" ++ (tag.drop coreStem.length).toString else tag

/-- The tag that a token spells. A lone exclamation mark states nothing. -/
def resolveTag (t : Token) (handle suffix : String) : Build (Option String) := do
  if handle = "" then return if suffix = "!" then none else some (shorten suffix)
  match (← get).handles.lookup handle with
  | some stem => return some (shorten (stem ++ suffix))
  | none => fail t

/-- What stands before a node. -/
structure Properties where
  anchor : Option String
  tag : Option String
  /-- Whether there is anything. -/
  isGiven : Bool

def readAnchor (p : Properties) : Build Properties := do
  match (← peek).form with
  | .anchor name =>
    drop
    return { p with anchor := some name, isGiven := true }
  | _ => return p

def readTag (p : Properties) : Build Properties := do
  let t ← peek
  match t.form with
  | .tag handle suffix =>
    drop
    return { p with tag := ← resolveTag t handle suffix, isGiven := true }
  | _ => return p

/-- A name and a tag, in either order. -/
def readProperties : Build Properties := do
  let p ← readAnchor ⟨none, none, false⟩
  let p ← readTag p
  if p.anchor.isSome then return p else readAnchor p

/-! ### Names -/

/-- Give a node that is about to be read its number. -/
def declare (anchor : Option String) : Build (Option Nat) := do
  match anchor with
  | none => return none
  | some name =>
    let n := (← get).count
    modify fun b => { b with count := n + 1, names := (name, n) :: b.names }
    return some n

/-- The node with a number, once it is read. -/
def keep (number : Option Nat) (n : Node) : Build Node := do
  match number with
  | none => return n
  | some number =>
    modify fun b => { b with named := (number, n) :: b.named }
    return n

/-- A reference, which needs a node with its name before it. -/
def refer (t : Token) (name : String) : Build Node := do
  match (← get).names.lookup name with
  | some target => return .reference t.line name target
  | none => fail t

/-! ### Nodes -/

/-- Where a node stands. Block collections are read in blocks only, and a sequence needs no
indentation of its own as a part of a block mapping. -/
inductive Context where
  | flow
  | block
  | blockEntry
deriving DecidableEq, Repr

mutual

/-- A node. -/
def node (context : Context) : Nat → Build Node
  | 0 => do fail (← peek)
  | fuel + 1 => do
    let first ← peek
    match first.form with
    | .reference name =>
      drop
      refer first name
    | _ =>
      let p ← readProperties
      let t ← peek
      let inBlock := context != .flow
      match t.form with
      | .scalar text isPlain =>
        drop
        let number ← declare p.anchor
        keep number (.scalar first.line p.tag isPlain text)
      | .flowSequence =>
        let number ← declare p.anchor
        drop
        keep number (.sequence first.line p.tag (← flowItems true fuel))
      | .flowMapping =>
        let number ← declare p.anchor
        drop
        keep number (.mapping first.line p.tag (← flowEntries true fuel))
      | form =>
        if form = .item && context = .blockEntry then
          let number ← declare p.anchor
          keep number (.sequence first.line p.tag (← looseItems fuel))
        else if form = .blockSequence && inBlock then
          let number ← declare p.anchor
          drop
          keep number (.sequence first.line p.tag (← blockItems fuel))
        else if form = .blockMapping && inBlock then
          let number ← declare p.anchor
          drop
          keep number (.mapping first.line p.tag (← blockEntries fuel))
        else if p.isGiven then
          let number ← declare p.anchor
          keep number (.scalar first.line p.tag true "")
        else fail t

/-- A node, or an absent one when a token in `ends` comes instead. -/
def nodeUnless (ends : List Token.Form) (context : Context) (line : Nat) : Nat → Build Node
  | 0 => do fail (← peek)
  | fuel + 1 => do
    if ends.contains (← peek).form then return .absent line else node context fuel

/-- The items of a block sequence. -/
def blockItems : Nat → Build (List Node)
  | 0 => do fail (← peek)
  | fuel + 1 => do
    let t ← peek
    match t.form with
    | .item =>
      drop
      let n ← nodeUnless [.item, .blockEnd] .block t.line fuel
      return n :: (← blockItems fuel)
    | .blockEnd =>
      drop
      return []
    | _ => fail t

/-- The items of a sequence without indentation of its own. -/
def looseItems : Nat → Build (List Node)
  | 0 => do fail (← peek)
  | fuel + 1 => do
    let t ← peek
    match t.form with
    | .item =>
      drop
      let n ← nodeUnless [.item, .key, .value, .blockEnd] .block t.line fuel
      return n :: (← looseItems fuel)
    | _ => return []

/-- The entries of a block mapping. -/
def blockEntries : Nat → Build (List (Node × Node))
  | 0 => do fail (← peek)
  | fuel + 1 => do
    let t ← peek
    match t.form with
    | .key =>
      drop
      let ends := [.key, .value, .blockEnd]
      let k ← nodeUnless ends .blockEntry t.line fuel
      let colon ← peek
      let v ←
        if colon.form = .value then do
          drop
          nodeUnless ends .blockEntry colon.line fuel
        else pure (.absent colon.line)
      return (k, v) :: (← blockEntries fuel)
    | .blockEnd =>
      drop
      return []
    | _ => fail t

/-- The items of a flow sequence. A key begins a mapping of one entry. -/
def flowItems (isFirst : Bool) : Nat → Build (List Node)
  | 0 => do fail (← peek)
  | fuel + 1 => do
    let t ← peek
    if t.form = .flowSequenceEnd then
      drop
      return []
    let t ←
      if isFirst then pure t
      else if t.form = .comma then do
        drop
        peek
      else fail t
    match t.form with
    | .flowSequenceEnd =>
      drop
      return []
    | .key =>
      drop
      let entry ← flowPair fuel
      return .mapping t.line none [entry] :: (← flowItems false fuel)
    | _ =>
      let n ← node .flow fuel
      return n :: (← flowItems false fuel)

/-- The entry of a mapping inside a flow sequence. A token that comes instead of the key is passed
over. -/
def flowPair : Nat → Build (Node × Node)
  | 0 => do fail (← peek)
  | fuel + 1 => do
    let t ← peek
    let k ←
      if [.value, .comma, .flowSequenceEnd].contains t.form then do
        drop
        pure (.absent t.line)
      else node .flow fuel
    let colon ← peek
    if colon.form = .value then
      drop
      return (k, ← nodeUnless [.comma, .flowSequenceEnd] .flow colon.line fuel)
    return (k, .absent colon.line)

/-- The entries of a flow mapping. A node without a colon is a key without a value. -/
def flowEntries (isFirst : Bool) : Nat → Build (List (Node × Node))
  | 0 => do fail (← peek)
  | fuel + 1 => do
    let t ← peek
    if t.form = .flowMappingEnd then
      drop
      return []
    let t ←
      if isFirst then pure t
      else if t.form = .comma then do
        drop
        peek
      else fail t
    match t.form with
    | .flowMappingEnd =>
      drop
      return []
    | .key =>
      drop
      let next ← peek
      let k ← nodeUnless [.value, .comma, .flowMappingEnd] .flow next.line fuel
      let colon ← peek
      let v ←
        if colon.form = .value then do
          drop
          let next ← peek
          nodeUnless [.comma, .flowMappingEnd] .flow next.line fuel
        else pure (.absent colon.line)
      return (k, v) :: (← flowEntries false fuel)
    | _ =>
      let k ← node .flow fuel
      let next ← peek
      return (k, .absent next.line) :: (← flowEntries false fuel)

end

/-! ### Documents -/

/-- The version of the language that documents can ask for. -/
def languageVersion : Nat × Nat := (1, 1)

/-- Directives, each of which may come once. -/
def directives (hasVersion : Bool) : Nat → Build Unit
  | 0 => do fail (← peek)
  | fuel + 1 => do
    let t ← peek
    match t.form with
    | .version major minor =>
      if hasVersion || (major, minor) != languageVersion then fail t
      drop
      directives true fuel
    | .tagHandle handle stem =>
      if ((← get).handles.lookup handle).isSome then fail t
      modify fun b => { b with handles := (handle, stem) :: b.handles }
      drop
      directives hasVersion fuel
    | _ => return

/-- The handles that need no directive. -/
def coreHandles : List (String × String) := [("!", "!"), ("!!", coreStem)]

/-- Whether a document has no contents before the token. -/
def endsDocument : Token.Form → Bool
  | .version _ _ | .tagHandle _ _ | .documentStart | .documentEnd | .streamEnd => true
  | _ => false

/-- Whether a document needs a mark at its beginning before the token. -/
def needsMark : Token.Form → Bool
  | .version _ _ | .tagHandle _ _ | .documentStart => true
  | _ => false

/-- The contents of the first document; none when the text has nothing. -/
def document (fuel : Nat) : Build (Option Node) := do
  let t ← peek
  if t.form = .streamEnd then return none
  let n ←
    if needsMark t.form then do
      directives false fuel
      modify fun b => { b with handles := b.handles ++ coreHandles }
      let mark ← peek
      if mark.form != .documentStart then fail mark
      drop
      let t ← peek
      if endsDocument t.form then pure (.absent t.line) else node .block fuel
    else do
      modify fun b => { b with handles := coreHandles }
      node .block fuel
  let _ ← peek
  return some n

end Build

/-- The first document of a text; none when the text has nothing. -/
def read (text : List Char) : Except Nat (Option Document) := do
  let fuel := 8 * text.length + 8
  let (root, b) ← (Build.document fuel).run ⟨.ofText text, [], 0, [], []⟩
  return root.map fun root => ⟨root, b.named, fuel⟩

end Octal.Yaml
