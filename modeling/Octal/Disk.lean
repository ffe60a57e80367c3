import Octal.Path
import Octal.Source
import Octal.Transcript.Archive

/-!
# Files

The files and databases that a run can see, and the directory that it works in. Paths are followed
part by part, as a file system does it, so a path through a missing or plain file fails even when
later parts would lead back.
-/

namespace Octal

inductive Disk.Node where
  | directory
  | file (content : Bytes)
  | database (db : Database)
deriving DecidableEq, Repr

/-- The bytes that a node is stored as; none for a directory. -/
def Disk.Node.content? : Disk.Node → Option Bytes
  | directory => none
  | file content => some content
  | database db => some db.encode

/-- What a path leads to. -/
inductive Disk.Found where
  | missing
  | notDirectory
  /-- The path has a character that no name can have, or a part that is too long. -/
  | invalid
  | tooLong
  | node (parts : List String) (n : Disk.Node)
deriving DecidableEq, Repr

/-- Files and directories by the parts of their absolute paths. -/
structure Disk where
  /-- The working directory. -/
  directory : List String
  nodes : List (List String × Disk.Node)
deriving DecidableEq, Repr

namespace Disk

/-- The parts of a path. -/
def parts (path : String) : List String := (path.splitOn "/").filter (!·.isEmpty)

/-- The node with the given parts. The root is a directory. -/
def node? (d : Disk) (parts : List String) : Option Node :=
  if parts.isEmpty then some .directory else d.nodes.lookup parts

/-- Put a node in place, replacing what is there. -/
def set (d : Disk) (parts : List String) (n : Node) : Disk :=
  if (d.nodes.lookup parts).isSome then
    { d with nodes := d.nodes.map fun (p, m) => if p = parts then (p, n) else (p, m) }
  else { d with nodes := d.nodes ++ [(parts, n)] }

/-- Make the directory `done ++ parts` and every directory on the way to it from `done`. -/
def makeDirectories (d : Disk) (done : List String) : List String → Disk
  | [] => d
  | part :: rest =>
    let parts := done ++ [part]
    let d := if (d.node? parts).isSome then d else d.set parts .directory
    makeDirectories d parts rest

/-- An empty working directory with the absolute path `path`. -/
def empty (path : String) : Disk := (Disk.mk (parts path) []).makeDirectories [] (parts path)

/-- The absolute form of a path. -/
def absolute (d : Disk) (path : String) : String :=
  if Path.isAbsolute path then Path.clean path
  else Path.join ["/" ++ "/".intercalate d.directory, path]

/-- Put a directory in place, with the directories it needs. -/
def addDirectory (d : Disk) (path : String) : Disk :=
  d.makeDirectories [] (parts (d.absolute path))

/-- Put a node in place, with the directories it needs. -/
def add (d : Disk) (path : String) (n : Node) : Disk :=
  let all := parts (d.absolute path)
  (d.makeDirectories [] all.dropLast).set all n

def addFile (d : Disk) (path : String) (content : Bytes) : Disk := d.add path (.file content)

/-- Put in place what was stored as `content`, a database or a file. -/
def restore (d : Disk) (path : String) (content : Bytes) : Disk :=
  d.add path (((Database.decode? content).map .database).getD (.file content))

/-- Follow the parts of a path from the directory `current`. -/
def follow (d : Disk) (current : List String) : List String → Found
  | [] =>
    match d.node? current with
    | some n => .node current n
    | none => .missing
  | part :: rest =>
    match d.node? current with
    | none => .missing
    | some (.file _) | some (.database _) => .notDirectory
    | some .directory =>
      if part == "" || part == "." then follow d current rest
      else if 255 < part.utf8ByteSize then .tooLong
      else if part == ".." then follow d current.dropLast rest
      else follow d (current ++ [part]) rest

/-- What a path leads to. -/
def find (d : Disk) (path : String) : Found :=
  if path.isEmpty then .missing
  else if path.contains '\x00' then .invalid
  else if 4095 < path.utf8ByteSize then .tooLong
  else d.follow (if Path.isAbsolute path then [] else d.directory) (path.splitOn "/")

/-- Open a file for reading. A directory can be opened, but reading it fails. -/
def openFile (d : Disk) (path : String) : Except Error Source :=
  let failure := fun text => Except.error (.outside ("open " ++ path ++ ": " ++ text))
  match d.find path with
  | .missing => failure "no such file or directory"
  | .notDirectory => failure "not a directory"
  | .invalid => failure "invalid argument"
  | .tooLong => failure "file name too long"
  | .node _ .directory => .ok ⟨[], .cutOff (.outside ("read " ++ path ++ ": is a directory"))⟩
  | .node _ (.file content) => .ok (.complete content)
  | .node _ (.database db) => .ok (.complete db.encode)

/-- The parts of the file that is at `path` or could be created there. -/
def target? (d : Disk) (path : String) : Option (List String) :=
  match d.find path with
  | .node parts (.file _) | .node parts (.database _) => some parts
  | .node _ .directory | .notDirectory | .invalid | .tooLong => none
  | .missing =>
    let parts := path.splitOn "/"
    match parts.getLast? with
    | none | some "" | some "." | some ".." => none
    | some name =>
      match d.find ("/".intercalate (parts.dropLast ++ ["."])) with
      | .node directory .directory => some (directory ++ [name])
      | _ => none

/-- Write a file or database, if it can be created. -/
def write (d : Disk) (path : String) (n : Node) : Disk :=
  match d.target? path with
  | some parts => d.set parts n
  | none => d

def writeFile (d : Disk) (path : String) (content : Bytes) : Disk := d.write path (.file content)

/-- The files in the working directory and below, by their paths from there. -/
def files (d : Disk) : List (String × Bytes) :=
  d.nodes.filterMap fun (parts, n) =>
    if d.directory.isPrefixOf parts then
      n.content?.map fun content => ("/".intercalate (parts.drop d.directory.length), content)
    else none

/-- The files that differ from those of an earlier state, by their absolute paths. -/
def changes (d earlier : Disk) : List (String × Bytes) :=
  d.nodes.filterMap fun (parts, n) =>
    if earlier.nodes.lookup parts = some n then none
    else n.content?.map fun content => ("/" ++ "/".intercalate parts, content)

end Disk

end Octal
