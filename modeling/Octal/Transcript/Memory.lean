import Octal.Transcript.Entry

/-!
# Transcripts in memory
-/

namespace Octal

/-- A transcript that lives as long as the session: its entries, oldest first. -/
structure Memory where
  entries : List Entry
deriving DecidableEq, Repr

namespace Memory

def empty : Memory := ⟨[]⟩

def record (m : Memory) (now : Instant) (d : Draft) : Entry × Memory :=
  let e := Entry.ofDraft (m.entries.length + 1) (d.stamp now) d
  (e, ⟨m.entries ++ [e]⟩)

/-- The newest `limit` entries, oldest first; all of them when `limit` is not positive. -/
def recent (m : Memory) (limit : Int) : List Entry :=
  let start := if 0 < limit ∧ limit < m.entries.length then m.entries.length - limit.toNat else 0
  m.entries.drop start

end Memory

end Octal
