import Mathlib
import Octal.Proofs.Calendar
import Octal.Transcript

/-!
# Transcripts

A transcript in memory and one in a database give the same replies (`Transcript.replies_memory_eq_database`): those of
a list of entries that are numbered in order (`Transcript.Answers`). The rows of the database are the entries of the
memory with their times written out (`Memory.Mirrors`), and a time of a year with four digits can be read back.

The two list entries in different ways, one by a slice and one by sorting and limiting rows. Both ways give the newest
elements of a list (`Memory.recent_eq`, `Database.recent_eq`).
-/

namespace Octal

/-! ### The newest elements -/

/-- The last `limit` elements of `xs`; all of them when `limit` is not positive. -/
def newest {α : Type} (limit : Int) (xs : List α) : List α :=
  if limit ≤ 0 then xs else xs.drop (xs.length - limit.toNat)

section
variable {α β : Type} (limit : Int) (xs : List α)

theorem newest_suffix : newest limit xs <:+ xs := by
  unfold newest
  split
  · exact List.suffix_rfl
  · exact List.drop_suffix _ _

theorem length_newest : (newest limit xs).length = if limit ≤ 0 then xs.length else min limit.toNat xs.length := by
  unfold newest
  split
  · rfl
  · rw [List.length_drop]
    omega

theorem newest_map (f : α → β) : newest limit (xs.map f) = (newest limit xs).map f := by
  unfold newest
  split
  · rfl
  · rw [List.length_map, List.map_drop]

end

theorem Memory.recent_eq (m : Memory) (limit : Int) : m.recent limit = newest limit m.entries := by
  rw [recent, newest]
  by_cases hall : limit ≤ 0
  · rw [if_neg fun h => by omega, if_pos hall, List.drop_zero]
  · rw [if_neg hall]
    by_cases hlimit : limit < m.entries.length
    · rw [if_pos ⟨by omega, hlimit⟩]
    · rw [if_neg fun h => hlimit h.2, show m.entries.length - limit.toNat = 0 by omega]

/-! ### Rows in order -/

namespace Row
variable {rows : List Row}

theorem eq_of_seq_eq (h : rows.Pairwise (·.seq < ·.seq)) {a b : Row} (ha : a ∈ rows) (hb : b ∈ rows)
    (hseq : a.seq = b.seq) : a = b := by
  have hnodup : (rows.map Row.seq).Nodup := List.pairwise_map.2 (h.imp Nat.ne_of_lt)
  exact List.inj_on_of_nodup_map hnodup ha hb hseq

/-- There is one way to put rows with different numbers in order. -/
theorem mergeSort_eq {le : Row → Row → Bool} {sorted : List Row} (htrans : ∀ a b c, le a b → le b c → le a c)
    (htotal : ∀ a b, le a b || le b a) (hantisymm : ∀ a b, le a b → le b a → a.seq = b.seq)
    (h : rows.Pairwise (·.seq < ·.seq)) (hmem : sorted.Perm rows) {shuffled : List Row} (hperm : shuffled.Perm rows)
    (hsorted : sorted.Pairwise (le · ·)) : shuffled.mergeSort le = sorted := by
  have hsort : (shuffled.mergeSort le).Perm rows := (List.mergeSort_perm shuffled le).trans hperm
  refine (hsort.trans hmem.symm).eq_of_pairwise (fun a b ha hb hab hba => ?_)
    (List.pairwise_mergeSort htrans htotal shuffled) hsorted
  exact eq_of_seq_eq h (hsort.mem_iff.1 ha) (hmem.mem_iff.1 hb) (hantisymm a b hab hba)

theorem mergeSort_descending (h : rows.Pairwise (·.seq < ·.seq)) :
    rows.mergeSort (fun a b => b.seq ≤ a.seq) = rows.reverse := by
  refine mergeSort_eq ?_ ?_ ?_ h (List.reverse_perm rows) (.refl rows)
    (List.pairwise_reverse.2 (h.imp fun hlt => decide_eq_true (Nat.le_of_lt hlt))) <;>
    grind

theorem mergeSort_ascending (h : rows.Pairwise (·.seq < ·.seq)) :
    rows.reverse.mergeSort (fun a b => a.seq ≤ b.seq) = rows := by
  refine mergeSort_eq ?_ ?_ ?_ h (.refl rows) (List.reverse_perm rows)
    (h.imp fun hlt => decide_eq_true (Nat.le_of_lt hlt)) <;>
    grind

end Row

/-- Where the rows are in order, the greatest numbers in ascending order are those of the last rows. -/
theorem Database.select_eq {db : Database} (h : db.rows.Pairwise (·.seq < ·.seq)) (limit : Int) :
    db.select (if limit ≤ 0 then -1 else limit) = newest limit db.rows := by
  rw [select, Row.mergeSort_descending h, newest]
  by_cases hall : limit ≤ 0
  · simp only [if_pos hall]
    exact Row.mergeSort_ascending h
  · simp only [if_neg hall, if_neg fun hneg : limit < 0 => hall (Int.le_of_lt hneg)]
    rw [List.take_reverse]
    exact Row.mergeSort_ascending (h.sublist (List.drop_sublist _ _))

theorem Database.recent_eq {db : Database} (h : db.rows.Pairwise (·.seq < ·.seq)) (limit : Int) :
    db.recent limit = (newest limit db.rows).mapM Row.toEntry := by
  rw [recent, select_eq h]

/-! ### Rows and entries -/

/-- The row that stores an entry. -/
def Row.ofEntry (e : Entry) : Row := ⟨e.seq, e.input, e.result, e.kind, e.message, e.time.instant.render⟩

/-- The entry has a time that can be read back from a row. -/
def Entry.Storable (e : Entry) : Prop := ∃ t : Instant, t.Writable ∧ e.time = .utc t

theorem Row.toEntry_ofEntry {e : Entry} (h : e.Storable) : (ofEntry e).toEntry = .ok e := by
  obtain ⟨t, ht, htime⟩ := h
  obtain ⟨seq, input, result, kind, message, time⟩ := e
  obtain rfl : time = .utc t := htime
  have hparse : Moment.parse? (Moment.utc t).instant.render = some (.utc t) := Moment.parse?_render ht
  rw [ofEntry, toEntry, hparse]

theorem Row.mapM_toEntry {es : List Entry} (h : ∀ e ∈ es, e.Storable) :
    (es.map ofEntry).mapM toEntry = .ok es := by
  induction es with
  | nil => rfl
  | cons e es ih =>
    obtain ⟨he, hes⟩ := List.forall_mem_cons.1 h
    rw [List.map_cons, List.mapM_cons, toEntry_ofEntry he, ih hes]
    rfl

theorem Database.recent_of_rows {db : Database} {es : List Entry} (hrows : db.rows = es.map Row.ofEntry)
    (hascending : db.rows.Pairwise (·.seq < ·.seq)) (h : ∀ e ∈ es, e.Storable) (limit : Int) :
    db.recent limit = .ok (newest limit es) := by
  rw [recent_eq hascending, hrows, newest_map]
  exact Row.mapM_toEntry fun e he => h e ((newest_suffix limit es).subset he)

/-! ### The two kinds of transcript side by side -/

/-- The draft has a time of its own, which can be read back from a row. -/
def Draft.Dated (d : Draft) : Prop := d.time.instant ≠ .zero ∧ d.time.instant.Writable

theorem Draft.stamp_of_ne_zero {d : Draft} (h : d.time.instant ≠ .zero) (now : Instant) :
    d.stamp now = .utc d.time.instant := by
  rw [stamp, if_neg h]
  rfl

/-- The open database stores the entries of the memory, which are numbered in order. -/
structure Memory.Mirrors (m : Memory) (c : Connection) : Prop where
  isOpen : c.isOpen = true
  rows : c.database.rows = m.entries.map Row.ofEntry
  lastSeq : c.database.lastSeq = m.entries.length
  numbered : m.entries.map Entry.seq = List.range' 1 m.entries.length
  storable : ∀ e ∈ m.entries, e.Storable

namespace Memory.Mirrors
variable {m : Memory} {c : Connection}

theorem ascending (h : m.Mirrors c) : c.database.rows.Pairwise (·.seq < ·.seq) := by
  have hseq : c.database.rows.map Row.seq = List.range' 1 m.entries.length := by
    rw [h.rows, List.map_map, ← h.numbered]
    rfl
  rw [← List.pairwise_map (f := Row.seq) (R := (· < ·)), hseq]
  exact List.pairwise_lt_range'

theorem recent (h : m.Mirrors c) (limit : Int) : c.recent limit = .ok (m.recent limit) := by
  rw [Connection.recent, if_pos h.isOpen, m.recent_eq]
  exact Database.recent_of_rows h.rows h.ascending h.storable limit

/-- The times at which the two record the draft do not matter, as it has one of its own. -/
theorem record (h : m.Mirrors c) {d : Draft} (hd : d.Dated) (now now' : Instant) :
    ∃ c', c.record now' d = .ok ((m.record now d).1, c') ∧ (m.record now d).2.Mirrors c' := by
  obtain ⟨hzero, hwritable⟩ := hd
  have hstamp := Draft.stamp_of_ne_zero hzero
  refine ⟨{ c with database := c.database.insert (.utc d.time.instant) d }, ?_, ?_⟩
  · simp only [Connection.record, if_pos h.isOpen, Memory.record, hstamp, Database.insert, h.lastSeq]
  · simp only [Memory.record, hstamp]
    constructor
    · exact h.isOpen
    · simp only [Database.insert, h.rows, h.lastSeq, List.map_append]
      rfl
    · simp [Database.insert, h.lastSeq]
    · rw [List.map_append, h.numbered, List.length_append, List.length_singleton, List.range'_1_concat, Nat.add_comm 1]
      rfl
    · simp only [List.forall_mem_append, List.forall_mem_singleton]
      exact ⟨h.storable, d.time.instant, hwritable, rfl⟩

end Memory.Mirrors

theorem Memory.mirrors_fresh {c : Connection} (h : Connection.connect .fresh = .ok c) : Memory.empty.Mirrors c := by
  cases h
  exact ⟨rfl, rfl, rfl, rfl, List.forall_mem_nil _⟩

/-! ### Requests -/

namespace Transcript

inductive Request where
  | record (d : Draft)
  | recent (limit : Int)

inductive Reply where
  | recorded (e : Entry)
  | listed (es : List Entry)
  | refused (cause : Error)
deriving DecidableEq, Repr

def reply (t : Transcript) (now : Instant) : Request → Reply × Transcript
  | .record d =>
    match t.record now d with
    | .ok (e, t) => (.recorded e, t)
    | .error cause => (.refused cause, t)
  | .recent limit =>
    match t.recent limit with
    | .ok es => (.listed es, t)
    | .error cause => (.refused cause, t)

/-- The replies to requests, `clock` giving the time of each. -/
def replies (t : Transcript) (clock : Nat → Instant) : List Request → List Reply
  | [] => []
  | r :: rest => (t.reply (clock 0) r).1 :: (t.reply (clock 0) r).2.replies (clock <| · + 1) rest

/-- The replies to requests, where `past` has been recorded before: a draft becomes the entry with the next number,
whatever number it came with, at its own time told in UTC; and the entries listed are the newest ones, at most `limit` of
them unless that is not positive. -/
inductive Answers : List Entry → List Request → List Reply → Prop
  | nil {past : List Entry} : Answers past [] []
  | record {past : List Entry} {d : Draft} {e : Entry} {rest : List Request} {replies : List Reply}
    (entry : e = ⟨past.length + 1, d.input, d.result, d.kind, d.message, .utc d.time.instant⟩)
    (later : Answers (past ++ [e]) rest replies) : Answers past (.record d :: rest) (.recorded e :: replies)
  | recent {past es : List Entry} {limit : Int} {rest : List Request} {replies : List Reply}
    (newest : es <:+ past) (length : es.length = if limit ≤ 0 then past.length else min limit.toNat past.length)
    (later : Answers past rest replies) : Answers past (.recent limit :: rest) (.listed es :: replies)

theorem answers_memory (m : Memory) (clock : Nat → Instant) {requests : List Request}
    (hd : ∀ d, .record d ∈ requests → d.Dated) : Answers m.entries requests ((memory m).replies clock requests) := by
  induction requests generalizing m clock with
  | nil => exact .nil
  | cons r rest ih =>
    have hrest : ∀ d, .record d ∈ rest → d.Dated := fun d h => hd d (List.mem_cons_of_mem _ h)
    cases r with
    | record d =>
      obtain ⟨hzero, -⟩ := hd d List.mem_cons_self
      refine .record ?_ (ih (m.record (clock 0) d).2 _ hrest)
      rw [← Draft.stamp_of_ne_zero hzero (clock 0)]
      rfl
    | recent limit =>
      refine .recent ?_ ?_ (ih m _ hrest)
      · rw [m.recent_eq]
        exact newest_suffix limit m.entries
      · rw [m.recent_eq]
        exact length_newest limit m.entries

theorem replies_of_mirrors {m : Memory} {c : Connection} (h : m.Mirrors c) (name : String)
    (clock clock' : Nat → Instant) {requests : List Request} (hd : ∀ d, .record d ∈ requests → d.Dated) :
    (memory m).replies clock requests = (database name c).replies clock' requests := by
  induction requests generalizing m c clock clock' with
  | nil => rfl
  | cons r rest ih =>
    have hrest : ∀ d, .record d ∈ rest → d.Dated := fun d h => hd d (List.mem_cons_of_mem _ h)
    cases r with
    | record d =>
      obtain ⟨c', hrecord, hc'⟩ := h.record (hd d List.mem_cons_self) (clock 0) (clock' 0)
      have hreply : (database name c).reply (clock' 0) (.record d) =
          (.recorded (m.record (clock 0) d).1, database name c') := by
        rw [reply, record, hrecord]
        rfl
      rw [replies, replies, hreply]
      exact congrArg _ (ih hc' _ _ hrest)
    | recent limit =>
      have hreply : (database name c).reply (clock' 0) (.recent limit) =
          (.listed (m.recent limit), database name c) := by
        rw [reply, recent, h.recent]
      rw [replies, replies, hreply]
      exact congrArg _ (ih h _ _ hrest)

/-- A new transcript in memory and a new database give the same replies to the same requests, when the drafts have times
of their own, at any offset, that are in the years 0 to 9999 in UTC. The clock is not needed then, and may be another
one for each. -/
theorem replies_memory_eq_database {c : Connection} (hc : Connection.connect .fresh = .ok c) (name : String)
    (clock clock' : Nat → Instant) {requests : List Request} (hd : ∀ d, .record d ∈ requests → d.Dated) :
    (memory .empty).replies clock requests = (database name c).replies clock' requests ∧
      Answers [] requests ((memory .empty).replies clock requests) :=
  ⟨replies_of_mirrors (Memory.mirrors_fresh hc) name clock clock' hd, answers_memory .empty clock hd⟩

/-- Three drafts that come with numbers of their own, at three offsets, and listings of none, two and all of them. The
first is from the year 10000 where it was written, and from the last second of 9999 in UTC. -/
theorem replies_memory_eq_database_offsets :
    let late : Draft := ⟨99, [0x37], "7", "", "", ⟨⟨253402300799, 500000000⟩, 3600⟩⟩
    let early : Draft := ⟨-1, [0x2F], "", "parse", "parse error", ⟨⟨-62167219200, 0⟩, -19800⟩⟩
    let other : Draft := ⟨1, [0x36], "6", "", "", ⟨⟨0, 1⟩, 0⟩⟩
    let requests := [Request.recent 3, .record late, .record early, .record other, .recent 2, .recent (-1)]
    let first : Entry := ⟨1, [0x37], "7", "", "", .utc ⟨253402300799, 500000000⟩⟩
    let second : Entry := ⟨2, [0x2F], "", "parse", "parse error", .utc ⟨-62167219200, 0⟩⟩
    let third : Entry := ⟨3, [0x36], "6", "", "", .utc ⟨0, 1⟩⟩
    ∃ c, Connection.connect .fresh = .ok c ∧ (late.Dated ∧ early.Dated ∧ other.Dated) ∧
      (database "t.db" c).replies (fun _ => .zero) requests =
        [.listed [], .recorded first, .recorded second, .recorded third, .listed [second, third],
          .listed [first, second, third]] := by
  intro late early other requests first second third
  have hlate : late.Dated := ⟨by decide, by decide, by decide⟩
  have hearly : early.Dated := ⟨by decide, by decide, by decide⟩
  have hother : other.Dated := ⟨by decide, by decide, by decide⟩
  have hrequests : ∀ d, .record d ∈ requests → d.Dated := by
    intro d hmem
    have hd : d = late ∨ d = early ∨ d = other := by simpa [requests] using hmem
    rcases hd with rfl | rfl | rfl
    · exact hlate
    · exact hearly
    · exact hother
  refine ⟨_, rfl, ⟨hlate, hearly, hother⟩, ?_⟩
  rw [← (replies_memory_eq_database rfl "t.db" (fun _ => .zero) (fun _ => .zero) hrequests).1]
  rfl

end Transcript

end Octal
