import Octal.Calendar
import Octal.Error
import Octal.Text.Rune

/-!
# Transcript entries
-/

namespace Octal

/-- What there is to record about one evaluation. -/
structure Draft where
  /-- A number that it comes with. Recording puts the transcript's own in its place. -/
  seq : Int
  input : Bytes
  /-- The result in octal, empty when the evaluation failed. -/
  result : String
  /-- The category of the failure, empty when there was none. -/
  kind : String
  /-- The message of the failure, empty when there was none. -/
  message : String
  /-- When the evaluation happened, told in any offset. The zero instant stands for now. -/
  time : Moment
deriving DecidableEq, Repr

namespace Draft

/-- The record of an evaluation of `input` that ended with `result`. -/
def ofResult (input : Bytes) : Except Error String → Draft
  | .ok result => ⟨0, input, result, "", "", .utc .zero⟩
  | .error e => ⟨0, input, "", e.category, e.message, .utc .zero⟩

/-- When the evaluation happened, told in UTC. -/
def stamp (d : Draft) (now : Instant) : Moment :=
  let time := if d.time.instant = .zero then .utc now else d.time
  time.toUTC

end Draft

/-- A recorded evaluation. Entries are numbered from 1 in the order of recording. -/
structure Entry where
  seq : Nat
  input : Bytes
  result : String
  kind : String
  message : String
  time : Moment
deriving DecidableEq, Repr

namespace Entry

/-- The entry for a draft stamped `time`. -/
def ofDraft (seq : Nat) (time : Moment) (d : Draft) : Entry :=
  ⟨seq, d.input, d.result, d.kind, d.message, time⟩

def failed (e : Entry) : Bool := e.kind != ""

end Entry

end Octal
