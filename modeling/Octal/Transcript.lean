import Octal.Disk
import Octal.Transcript.Location
import Octal.Transcript.Memory

/-!
# Transcripts

The record of a session's evaluations, in memory or in a database file. A database is read from its
file when it is opened; `saveTo` puts it back.
-/

namespace Octal

inductive Transcript where
  | memory (m : Memory)
  | database (name : String) (c : Connection)
deriving DecidableEq, Repr

namespace Transcript

/-- The contents of the database called `name`, whose path is cleaned before it is followed. A
missing file is a new database, and so is one with at most one byte. -/
def load (disk : Disk) (name : String) : Except Error Database :=
  let failure := fun text => Error.outside ("store: create schema in " ++ name ++ ": " ++ text)
  match Location.ofName name with
  | .error fault => .error (failure fault.message)
  | .ok .memory => .ok .fresh
  | .ok (.file path) =>
    let path := disk.absolute path
    match disk.find path with
    | .node _ (.database db) => .ok db
    | .node _ (.file content) =>
      if content.length ≤ 1 then .ok .fresh else .error (failure "file is not a database (26)")
    | _ =>
      if (disk.target? path).isSome then .ok .fresh
      else .error (failure "unable to open database file: out of memory (14)")

/-- Open the transcript at `path`; without a path, one in memory. -/
def openAt (disk : Disk) (path : String) : Except Error Transcript :=
  if path = "" then .ok (.memory .empty)
  else do
    let db ← load disk path
    return .database path (← Connection.connect db)

def record (t : Transcript) (now : Instant) (d : Draft) : Except Error (Entry × Transcript) :=
  match t with
  | memory m =>
    let (e, m) := m.record now d
    .ok (e, memory m)
  | database path c => (c.record now d).map fun (e, c) => (e, database path c)

def recent (t : Transcript) (limit : Int) : Except Error (List Entry) :=
  match t with
  | memory m => .ok (m.recent limit)
  | database _ c => c.recent limit

/-- Closing releases a database. A transcript in memory keeps working. -/
def close : Transcript → Transcript
  | memory m => memory m
  | database path c => database path c.close

/-- Change the table of a database from outside. -/
def edit (f : Database → Database) : Transcript → Transcript
  | memory m => memory m
  | database path c => database path { c with database := f c.database }

/-- The files after the transcript has been written to its file. -/
def saveTo (disk : Disk) : Transcript → Disk
  | memory _ => disk
  | database name c =>
    match Location.path? name with
    | some path => disk.write (disk.absolute path) (.database c.database)
    | none => disk

end Transcript

end Octal
