import Octal.Transcript.Entry

/-!
# Transcript databases

A transcript that outlives the session: a table of entries in a file, with a schema version. Times are
stored as text. Sequence numbers are never used twice, even when entries are deleted. A connection
to a closed database refuses to work, and leaves the table as it is.
-/

namespace Octal

/-- A stored entry. -/
structure Row where
  seq : Nat
  input : Bytes
  result : String
  kind : String
  message : String
  stamp : String
deriving DecidableEq, Repr

namespace Row

/-- The entry that a row stores, if its time can be read. The message does not go on to say what is
wrong with the time. -/
def toEntry (r : Row) : Except Error Entry :=
  match Moment.parse? r.stamp with
  | some time => .ok ⟨r.seq, r.input, r.result, r.kind, r.message, time⟩
  | none =>
    .error (.outside ("store: entry " ++ r.seq.repr ++ ": bad timestamp " ++ Text.quote r.stamp))

end Row

/-- The contents of a database file. -/
structure Database where
  /-- The schema version, empty in a file that has none yet. -/
  version : String
  /-- The rows in the order of their numbers. -/
  rows : List Row
  /-- The greatest number ever used. -/
  lastSeq : Nat
deriving DecidableEq, Repr

namespace Database

def schemaVersion : String := "1"

/-- The contents of a new file. -/
def fresh : Database := ⟨"", [], 0⟩

/-- Prepare a database for use. A file without a version gets the current one; any other version is
refused. -/
def setUp (db : Database) : Except Error Database :=
  if db.version = "" then .ok { db with version := schemaVersion }
  else if db.version = schemaVersion then .ok db
  else
    .error (.outside ("store: unsupported schema version: " ++ db.version ++ " (expected " ++
      schemaVersion ++ ")"))

/-- Add an entry stamped `time`. -/
def insert (db : Database) (time : Moment) (d : Draft) : Database :=
  let seq := db.lastSeq + 1
  { db with
    rows := db.rows ++ [⟨seq, d.input, d.result, d.kind, d.message, time.render⟩]
    lastSeq := seq }

/-- The rows with the greatest numbers, in ascending order: `limit` of them, or all when it is
negative. -/
def select (db : Database) (limit : Int) : List Row :=
  let descending := db.rows.mergeSort fun a b => b.seq ≤ a.seq
  let chosen := if limit < 0 then descending else descending.take limit.toNat
  chosen.mergeSort fun a b => a.seq ≤ b.seq

/-- The newest `limit` entries, oldest first; all of them when `limit` is not positive. The first row
whose time cannot be read fails them all. -/
def recent (db : Database) (limit : Int) : Except Error (List Entry) :=
  (db.select (if limit ≤ 0 then -1 else limit)).mapM Row.toEntry

/-! ### Changes from outside -/

def setVersion (db : Database) (version : String) : Database := { db with version }

def setStamp (db : Database) (seq : Nat) (stamp : String) : Database :=
  { db with rows := db.rows.map fun r => if r.seq = seq then { r with stamp } else r }

def delete (db : Database) (seq : Nat) : Database :=
  { db with rows := db.rows.filter (·.seq ≠ seq) }

end Database

/-- A database in use, until it is closed. -/
structure Connection where
  database : Database
  isOpen : Bool
deriving DecidableEq, Repr

namespace Connection

def closedError (operation : String) : Error :=
  .outside ("store: " ++ operation ++ ": sql: database is closed")

def connect (db : Database) : Except Error Connection := db.setUp.map (⟨·, true⟩)

def record (c : Connection) (now : Instant) (d : Draft) : Except Error (Entry × Connection) :=
  if c.isOpen then
    let time := d.stamp now
    let db := c.database.insert time d
    .ok (.ofDraft db.lastSeq time d, { c with database := db })
  else .error (closedError "record")

def recent (c : Connection) (limit : Int) : Except Error (List Entry) :=
  if c.isOpen then c.database.recent limit else .error (closedError "recent")

/-- Closing a closed connection does nothing. -/
def close (c : Connection) : Connection := { c with isOpen := false }

end Connection

end Octal
