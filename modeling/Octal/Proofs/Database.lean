import Mathlib
import Octal.Proofs.Transcript

/-!
# Database files

Several connections may be made to one database file, one after another or side by side, and the file may be changed
from outside in between (`SharedDatabase.Step`). What a file stores is said from its history alone (`Stored`): the
drafts that were recorded and not deleted since, with the time that was written last. Whatever has happened, the table
has exactly these rows in the order of their numbers, and no number is given out twice (`Keeps`). So the numbers of new
entries are greater than all before, and a listing tells the newest rows or names the first one whose time cannot be
read (`SharedDatabase.answer_after`).
-/

namespace Octal

/-! ### Listing rows -/

/-- The entry is what the row stores. -/
def Row.Tells (r : Row) (e : Entry) : Prop :=
  e = ⟨r.seq, r.input, r.result, r.kind, r.message, e.time⟩ ∧ Moment.parse? r.stamp = some e.time

theorem Row.toEntry_cases (r : Row) :
    (∃ e, r.toEntry = .ok e ∧ r.Tells e) ∨
      Moment.parse? r.stamp = none ∧
        r.toEntry = .error (.outside ("store: entry " ++ r.seq.repr ++ ": bad timestamp " ++ Text.quote r.stamp)) := by
  unfold toEntry
  split
  · next time htime => exact .inl ⟨_, rfl, rfl, htime⟩
  · next hnone => exact .inr ⟨hnone, rfl⟩

/-- Either all rows are told, or the first one that cannot be is the cause of the failure. -/
theorem Row.mapM_toEntry_cases (rows : List Row) :
    (∃ es, rows.mapM toEntry = .ok es ∧ List.Forall₂ Tells rows es) ∨
      ∃ front r rest, rows = front ++ r :: rest ∧ (∀ q ∈ front, Moment.parse? q.stamp ≠ none) ∧
        Moment.parse? r.stamp = none ∧ rows.mapM toEntry =
          .error (.outside ("store: entry " ++ r.seq.repr ++ ": bad timestamp " ++ Text.quote r.stamp)) := by
  induction rows with
  | nil => exact .inl ⟨[], rfl, .nil⟩
  | cons r rows ih =>
    rw [List.mapM_cons]
    rcases r.toEntry_cases with ⟨e, he, htells⟩ | ⟨hnone, he⟩
    · rw [he]
      rcases ih with ⟨es, hes, hall⟩ | ⟨front, q, rest, rfl, hfront, hq, herror⟩
      · rw [hes]
        exact .inl ⟨e :: es, rfl, .cons htells hall⟩
      · rw [herror]
        refine .inr ⟨r :: front, q, rest, rfl, ?_, hq, rfl⟩
        refine List.forall_mem_cons.2 ⟨?_, hfront⟩
        rw [htells.2]
        exact Option.some_ne_none _
    · rw [he]
      exact .inr ⟨[], r, rows, rfl, List.forall_mem_nil _, hnone, rfl⟩

/-! ### Histories -/

/-- A database file, and for each connection that was made to it whether it is open. -/
structure SharedDatabase where
  database : Database
  connections : List Bool
deriving DecidableEq, Repr

namespace SharedDatabase

def new : SharedDatabase := ⟨.fresh, []⟩

/-- The connection with number `c`. A number that was not given out counts as closed. -/
def connection (s : SharedDatabase) (c : Nat) : Connection := ⟨s.database, s.connections.getD c false⟩

def put (s : SharedDatabase) (c : Nat) (next : Connection) : SharedDatabase :=
  ⟨next.database, s.connections.set c next.isOpen⟩

/-- What can happen to the file: requests to a connection, and changes from outside. -/
inductive Step where
  | connect
  | record (c : Nat) (now : Instant) (d : Draft)
  | recent (c : Nat) (limit : Int)
  | close (c : Nat)
  | delete (seq : Nat)
  | setStamp (seq : Nat) (stamp : String)
  | setVersion (version : String)
deriving DecidableEq, Repr

inductive Answer where
  | connected (c : Nat)
  | recorded (e : Entry)
  | listed (es : List Entry)
  | refused (cause : Error)
  | done
deriving DecidableEq, Repr

namespace Answer

/-- The number that was given out, if any. -/
def number? : Answer → Option Nat
  | recorded e => some e.seq
  | _ => none

def ofListing : Except Error (List Entry) → Answer
  | .ok es => listed es
  | .error cause => refused cause

end Answer

def step (s : SharedDatabase) : Step → Answer × SharedDatabase
  | .connect =>
    match Connection.connect s.database with
    | .ok c => (.connected s.connections.length, ⟨c.database, s.connections ++ [c.isOpen]⟩)
    | .error cause => (.refused cause, s)
  | .record c now d =>
    match (s.connection c).record now d with
    | .ok (e, next) => (.recorded e, s.put c next)
    | .error cause => (.refused cause, s)
  | .recent c limit => (.ofListing ((s.connection c).recent limit), s)
  | .close c => (.done, s.put c (s.connection c).close)
  | .delete seq => (.done, { s with database := s.database.delete seq })
  | .setStamp seq stamp => (.done, { s with database := s.database.setStamp seq stamp })
  | .setVersion version => (.done, { s with database := s.database.setVersion version })

/-- The file after the steps of `past`, the last of which stands first. -/
def after : List Step → SharedDatabase
  | [] => new
  | a :: past => ((after past).step a).2

/-- The answer to `a` after the steps of `past`. -/
def answer (past : List Step) (a : Step) : Answer := ((after past).step a).1

/-- The steps of `past` with their answers. -/
def history : List Step → List (Step × Answer)
  | [] => []
  | a :: past => (a, answer past a) :: history past

/-- The number `n` was given to an entry. -/
def Assigned (past : List (Step × Answer)) (n : Nat) : Prop := ∃ event ∈ past, event.2.number? = some n

/-- The connection with number `c` was made, and has not been closed since. -/
inductive Opened : List (Step × Answer) → Nat → Prop
  | connected {past : List (Step × Answer)} {c : Nat} : Opened ((.connect, .connected c) :: past) c
  | kept {past : List (Step × Answer)} {c : Nat} {a : Step} {answer : Answer} (h : Opened past c)
    (unclosed : a ≠ .close c) : Opened ((a, answer) :: past) c

/-- The row with number `n` is deleted or written to. -/
def Step.Touches : Step → Nat → Prop
  | .delete seq, n => seq = n
  | .setStamp seq _, n => seq = n
  | _, _ => False

/-- What a file with this history stores. -/
inductive Stored : List (Step × Answer) → Row → Prop
  | recorded {past : List (Step × Answer)} {c : Nat} {now : Instant} {d : Draft} {e : Entry} :
    Stored ((.record c now d, .recorded e) :: past)
      ⟨e.seq, d.input, d.result, d.kind, d.message, (d.stamp now).render⟩
  | stamped {past : List (Step × Answer)} {r : Row} {stamp : String} {answer : Answer} (h : Stored past r) :
    Stored ((.setStamp r.seq stamp, answer) :: past) { r with stamp }
  | kept {past : List (Step × Answer)} {r : Row} {a : Step} {answer : Answer} (h : Stored past r)
    (untouched : ¬ a.Touches r.seq) : Stored ((a, answer) :: past) r

/-! ### What one step does -/

section
variable {past : List (Step × Answer)} {r : Row} {a : Step} {reply : Answer}

theorem stored_quiet (ha : ∀ n, ¬ a.Touches n) (hreply : reply.number? = none) :
    Stored ((a, reply) :: past) r ↔ Stored past r := by
  constructor
  · intro h
    cases h with
    | recorded => cases hreply
    | stamped _ => exact absurd rfl (ha _)
    | kept h _ => exact h
  · exact fun h => .kept h (ha _)

theorem stored_record {c : Nat} {now : Instant} {d : Draft} {e : Entry} :
    Stored ((.record c now d, .recorded e) :: past) r ↔
      r = ⟨e.seq, d.input, d.result, d.kind, d.message, (d.stamp now).render⟩ ∨ Stored past r := by
  constructor
  · intro h
    cases h with
    | recorded => exact .inl rfl
    | kept h _ => exact .inr h
  · rintro (rfl | h)
    · exact .recorded
    · exact .kept h id

theorem stored_delete {seq : Nat} : Stored ((.delete seq, reply) :: past) r ↔ Stored past r ∧ r.seq ≠ seq := by
  constructor
  · intro h
    cases h with
    | kept h untouched => exact ⟨h, fun hseq => untouched hseq.symm⟩
  · rintro ⟨h, hseq⟩
    exact .kept h fun htouch => hseq htouch.symm

theorem stored_setStamp {seq : Nat} {stamp : String} :
    Stored ((.setStamp seq stamp, reply) :: past) r ↔
      ∃ q, Stored past q ∧ (if q.seq = seq then { q with stamp } else q) = r := by
  constructor
  · intro h
    cases h with
    | @stamped _ q _ _ h => exact ⟨q, h, if_pos rfl⟩
    | kept h untouched => exact ⟨r, h, if_neg fun hseq => untouched hseq.symm⟩
  · rintro ⟨q, h, rfl⟩
    split
    · next hseq =>
      subst hseq
      exact .stamped h
    · next hseq => exact .kept h fun htouch => hseq htouch.symm

theorem opened_cons {c : Nat} :
    Opened ((a, reply) :: past) c ↔ (a = .connect ∧ reply = .connected c) ∨ (Opened past c ∧ a ≠ .close c) := by
  constructor
  · intro h
    cases h with
    | connected => exact .inl ⟨rfl, rfl⟩
    | kept h unclosed => exact .inr ⟨h, unclosed⟩
  · rintro (⟨rfl, rfl⟩ | ⟨h, unclosed⟩)
    · exact .connected
    · exact .kept h unclosed

theorem assigned_cons {n : Nat} :
    Assigned ((a, reply) :: past) n ↔ reply.number? = some n ∨ Assigned past n := by
  simp only [Assigned, List.exists_mem_cons_iff]

end

section
variable (s : SharedDatabase) {c : Nat}

theorem of_connect {db : Database} {next : Connection} (h : Connection.connect db = .ok next) :
    next.database.rows = db.rows ∧ next.database.lastSeq = db.lastSeq ∧ next.isOpen = true := by
  unfold Connection.connect Database.setUp at h
  split at h
  · cases h
    exact ⟨rfl, rfl, rfl⟩
  · split at h <;> cases h
    exact ⟨rfl, rfl, rfl⟩

/-- Only the schema version stands in the way of a connection. -/
theorem connected_iff :
    (∃ n, (s.step .connect).1 = .connected n) ↔
      s.database.version = "" ∨ s.database.version = Database.schemaVersion := by
  simp only [step, Connection.connect, Database.setUp]
  by_cases hempty : s.database.version = ""
  · rw [if_pos hempty]
    exact ⟨fun _ => .inl hempty, fun _ => ⟨_, rfl⟩⟩
  · rw [if_neg hempty]
    by_cases hversion : s.database.version = Database.schemaVersion
    · rw [if_pos hversion]
      exact ⟨fun _ => .inr hversion, fun _ => ⟨_, rfl⟩⟩
    · rw [if_neg hversion]
      refine ⟨nofun, fun h => ?_⟩
      exact absurd h (not_or.2 ⟨hempty, hversion⟩)

theorem step_record_of_open (h : (s.connection c).isOpen = true) (now : Instant) (d : Draft) :
    s.step (.record c now d) = (.recorded (.ofDraft (s.database.lastSeq + 1) (d.stamp now) d),
      s.put c ⟨s.database.insert (d.stamp now) d, true⟩) := by
  simp only [step, Connection.record, if_pos h]
  rw [h]
  rfl

theorem step_record_of_closed (h : (s.connection c).isOpen = false) (now : Instant) (d : Draft) :
    s.step (.record c now d) = (.refused (Connection.closedError "record"), s) := by
  simp only [step, Connection.record, h, Bool.false_eq_true, if_false]

theorem step_recent_of_open (h : (s.connection c).isOpen = true) (hascending : s.database.rows.Pairwise (·.seq < ·.seq))
    (limit : Int) : s.step (.recent c limit) = (.ofListing ((newest limit s.database.rows).mapM Row.toEntry), s) := by
  rw [step, Connection.recent, if_pos h, ← Database.recent_eq hascending]
  rfl

theorem step_recent_of_closed (h : (s.connection c).isOpen = false) (limit : Int) :
    s.step (.recent c limit) = (.refused (Connection.closedError "recent"), s) := by
  rw [step, Connection.recent, h, if_neg Bool.false_ne_true]
  rfl

/-- All that a step can do to the table: nothing, a new row, a row less, or another time. -/
theorem step_cases (a : Step) :
    ((s.step a).2.database.rows = s.database.rows ∧ (s.step a).2.database.lastSeq = s.database.lastSeq ∧
        (∀ n, ¬ a.Touches n) ∧ (s.step a).1.number? = none) ∨
      (∃ c now d, a = .record c now d ∧
        (s.step a).1 = .recorded (.ofDraft (s.database.lastSeq + 1) (d.stamp now) d) ∧
        (s.step a).2.database = s.database.insert (d.stamp now) d) ∨
      (∃ seq, a = .delete seq ∧ s.step a = (.done, { s with database := s.database.delete seq })) ∨
      ∃ seq stamp, a = .setStamp seq stamp ∧
        s.step a = (.done, { s with database := s.database.setStamp seq stamp }) := by
  cases a with
  | connect =>
    left
    rw [step]
    split
    · next next hconnect =>
      obtain ⟨hrows, hlast, -⟩ := of_connect hconnect
      exact ⟨hrows, hlast, fun _ => id, rfl⟩
    · exact ⟨rfl, rfl, fun _ => id, rfl⟩
  | record c now d =>
    cases hopen : (s.connection c).isOpen with
    | true =>
      right; left
      rw [s.step_record_of_open hopen]
      exact ⟨c, now, d, rfl, rfl, rfl⟩
    | false =>
      left
      rw [s.step_record_of_closed hopen]
      exact ⟨rfl, rfl, fun _ => id, rfl⟩
  | recent c limit =>
    left
    refine ⟨rfl, rfl, fun _ => id, ?_⟩
    show (Answer.ofListing ((s.connection c).recent limit)).number? = none
    cases (s.connection c).recent limit <;> rfl
  | close c => exact .inl ⟨rfl, rfl, fun _ => id, rfl⟩
  | delete seq => exact .inr (.inr (.inl ⟨seq, rfl, rfl⟩))
  | setStamp seq stamp => exact .inr (.inr (.inr ⟨seq, stamp, rfl, rfl⟩))
  | setVersion version => exact .inl ⟨rfl, rfl, fun _ => id, rfl⟩

end

/-! ### The table after any history -/

/-- The table has the rows that its history stores, in order, and all numbers that were given out are behind it. -/
structure Keeps (past : List (Step × Answer)) (db : Database) : Prop where
  rows : ∀ r, r ∈ db.rows ↔ Stored past r
  ascending : db.rows.Pairwise (·.seq < ·.seq)
  bounded : ∀ r ∈ db.rows, r.seq ≤ db.lastSeq
  assigned : ∀ n, Assigned past n → n ≤ db.lastSeq

namespace Keeps
variable {past : List (Step × Answer)} {db next : Database} {a : Step} {reply : Answer}

theorem quiet (h : Keeps past db) (hrows : next.rows = db.rows) (hlast : next.lastSeq = db.lastSeq)
    (ha : ∀ n, ¬ a.Touches n) (hreply : reply.number? = none) : Keeps ((a, reply) :: past) next := by
  refine ⟨fun r => ?_, ?_, ?_, fun n hn => ?_⟩ <;> simp only [hrows, hlast]
  · rw [stored_quiet ha hreply, h.rows]
  · exact h.ascending
  · exact h.bounded
  · rw [assigned_cons, hreply] at hn
    exact h.assigned n (hn.resolve_left nofun)

theorem insert (h : Keeps past db) (c : Nat) (now : Instant) (d : Draft) :
    Keeps ((.record c now d, .recorded (.ofDraft (db.lastSeq + 1) (d.stamp now) d)) :: past)
      (db.insert (d.stamp now) d) := by
  refine ⟨fun r => ?_, ?_, ?_, fun n hn => ?_⟩
  · rw [stored_record, ← h.rows, or_comm]
    simp only [Database.insert, List.mem_append, List.mem_singleton]
    rfl
  · refine List.pairwise_append.2 ⟨h.ascending, List.pairwise_singleton _ _, ?_⟩
    intro r hr q hq
    rw [List.mem_singleton.1 hq]
    exact Nat.lt_succ_of_le (h.bounded r hr)
  · intro r hr
    rcases List.mem_append.1 hr with hr | hr
    · exact Nat.le_succ_of_le (h.bounded r hr)
    · rw [List.mem_singleton.1 hr]
      exact Nat.le_refl _
  · rcases assigned_cons.1 hn with hn | hn
    · exact Nat.le_of_eq (Option.some_inj.1 hn).symm
    · exact Nat.le_succ_of_le (h.assigned n hn)

theorem delete (h : Keeps past db) (seq : Nat) : Keeps ((.delete seq, .done) :: past) (db.delete seq) := by
  refine ⟨fun r => ?_, h.ascending.filter _, ?_, fun n hn => ?_⟩
  · rw [stored_delete, ← h.rows, Database.delete, List.mem_filter, decide_eq_true_eq]
  · exact fun r hr => h.bounded r (List.mem_filter.1 hr).1
  · exact h.assigned n ((assigned_cons.1 hn).resolve_left nofun)

theorem setStamp (h : Keeps past db) (seq : Nat) (stamp : String) :
    Keeps ((.setStamp seq stamp, .done) :: past) (db.setStamp seq stamp) := by
  have hseq (r : Row) : (if r.seq = seq then { r with stamp } else r).seq = r.seq := by split <;> rfl
  refine ⟨fun r => ?_, ?_, ?_, fun n hn => ?_⟩
  · rw [stored_setStamp, Database.setStamp, List.mem_map]
    simp only [h.rows]
  · refine List.pairwise_map.2 (h.ascending.imp fun {r q} hlt => ?_)
    rwa [hseq, hseq]
  · intro r hr
    obtain ⟨q, hq, rfl⟩ := List.mem_map.1 hr
    rw [hseq]
    exact h.bounded q hq
  · exact h.assigned n ((assigned_cons.1 hn).resolve_left nofun)

theorem step {s : SharedDatabase} (h : Keeps past s.database) (a : Step) :
    Keeps ((a, (s.step a).1) :: past) (s.step a).2.database := by
  rcases s.step_cases a with ⟨hrows, hlast, ha, hreply⟩ | ⟨c, now, d, rfl, hreply, hdb⟩ | ⟨seq, rfl, hstep⟩ |
    ⟨seq, stamp, rfl, hstep⟩
  · exact h.quiet hrows hlast ha hreply
  · rw [hreply, hdb]
    exact h.insert c now d
  · rw [hstep]
    exact h.delete seq
  · rw [hstep]
    exact h.setStamp seq stamp

end Keeps

theorem keeps_after (past : List Step) : Keeps (history past) (after past).database := by
  induction past with
  | nil =>
    refine ⟨fun r => ⟨fun h => ?_, fun h => ?_⟩, .nil, List.forall_mem_nil _, ?_⟩
    · exact absurd h List.not_mem_nil
    · cases h
    · rintro n ⟨event, hmem, -⟩
      exact absurd hmem List.not_mem_nil
  | cons a past ih => exact ih.step a

/-! ### Open connections -/

theorem getD_set {flags : List Bool} {c : Nat} {b : Bool} (h : b = true → flags.getD c false = true) (d : Nat) :
    (flags.set c b).getD d false = if c = d then b else flags.getD d false := by
  simp only [List.getD_eq_getElem?_getD, List.getElem?_set] at h ⊢
  split
  · next hcd =>
    subst hcd
    split
    · rfl
    · next hout =>
      cases b with
      | false => rfl
      | true => simp [hout] at h
  · rfl

theorem getD_snoc (flags : List Bool) (c : Nat) :
    (flags ++ [true]).getD c false = true ↔ flags.length = c ∨ flags.getD c false = true := by
  simp only [List.getD_eq_getElem?_getD]
  rcases Nat.lt_trichotomy c flags.length with hlt | rfl | hgt
  · rw [List.getElem?_append_left hlt]
    simp [Nat.ne_of_gt hlt]
  · simp
  · have hout : (flags ++ [true]).length ≤ c := by simpa using hgt
    rw [List.getElem?_eq_none hout, List.getElem?_eq_none (Nat.le_of_lt hgt)]
    simp [Nat.ne_of_lt hgt]

theorem isOpen_step (s : SharedDatabase) (a : Step) (c : Nat) :
    ((s.step a).2.connection c).isOpen = true ↔
      (a = .connect ∧ (s.step a).1 = .connected c) ∨ ((s.connection c).isOpen = true ∧ a ≠ .close c) := by
  cases a with
  | connect =>
    rw [step]
    split
    · next next hconnect =>
      obtain ⟨-, -, hopen⟩ := of_connect hconnect
      simp only [connection, hopen, getD_snoc]
      simp
    · simp
  | record d now draft =>
    cases hopen : (s.connection d).isOpen with
    | true =>
      rw [s.step_record_of_open hopen]
      simp only [connection, put] at hopen ⊢
      rw [getD_set fun _ => hopen]
      split
      · next hdc =>
        subst hdc
        simp only [hopen]
        simp
      · simp
    | false =>
      rw [s.step_record_of_closed hopen]
      simp
  | close d =>
    simp only [step, connection, put, Connection.close]
    rw [getD_set Bool.noConfusion]
    split
    · next hdc =>
      subst hdc
      simp
    · next hdc => simp [hdc]
  | recent d limit => simp [step]
  | delete seq => simp [step, connection]
  | setStamp seq stamp => simp [step, connection]
  | setVersion version => simp [step, connection]

theorem isOpen_after (past : List Step) (c : Nat) :
    ((after past).connection c).isOpen = true ↔ Opened (history past) c := by
  induction past with
  | nil => exact ⟨nofun, nofun⟩
  | cons a past ih =>
    rw [after, history, opened_cons, isOpen_step, ih]
    rfl

/-! ### Answers -/

/-- The answer to a request for the rows of `window`: all of them as entries, or the lowest one whose time cannot be
read. -/
inductive Listing (window : List Row) : Answer → Prop
  | listed {es : List Entry} (h : List.Forall₂ Row.Tells window es) : Listing window (.listed es)
  | refused {r : Row} (mem : r ∈ window) (unreadable : Moment.parse? r.stamp = none)
    (lowest : ∀ q ∈ window, Moment.parse? q.stamp = none → r.seq ≤ q.seq) :
    Listing window (.refused (.outside ("store: entry " ++ r.seq.repr ++ ": bad timestamp " ++ Text.quote r.stamp)))

theorem listing_of_ascending {window : List Row} (h : window.Pairwise (·.seq < ·.seq)) :
    Listing window (.ofListing (window.mapM Row.toEntry)) := by
  rcases Row.mapM_toEntry_cases window with ⟨es, hes, htells⟩ | ⟨front, r, rest, rfl, hfront, hr, herror⟩
  · rw [hes]
    exact .listed htells
  · rw [herror]
    refine .refused (by simp) hr fun q hq hnone => ?_
    obtain ⟨-, hrest, -⟩ := List.pairwise_append.1 h
    rcases List.mem_append.1 hq with hq | hq
    · exact absurd hnone (hfront q hq)
    · rcases List.mem_cons.1 hq with rfl | hq
      · exact Nat.le_refl _
      · exact Nat.le_of_lt ((List.pairwise_cons.1 hrest).1 q hq)

/-- Whatever has happened to a database file: it can be connected to unless its schema version is another; an entry
gets a number above all that were given out before; a request that is refused, a connection, a listing and closing
leave the rows as they are; and a listing tells the newest rows of those stored, at most `limit` of them unless that is
not positive. -/
theorem answer_after (past : List Step) :
    ((∃ n, answer past .connect = .connected n) ↔
      (after past).database.version = "" ∨ (after past).database.version = Database.schemaVersion) ∧
    (∀ c now d,
      Opened (history past) c ∧
          (∃ e, answer past (.record c now d) = .recorded e ∧ ∀ n, Assigned (history past) n → n < e.seq) ∨
        ¬ Opened (history past) c ∧ answer past (.record c now d) = .refused (Connection.closedError "record")) ∧
    (∀ a, ((∃ cause, answer past a = .refused cause) ∨ a = .connect ∨ (∃ c limit, a = .recent c limit) ∨
        ∃ c, a = .close c) → (after (a :: past)).database.rows = (after past).database.rows) ∧
    ∀ c limit,
      Opened (history past) c ∧
          (∃ table window : List Row, (∀ r, r ∈ table ↔ Stored (history past) r) ∧ table.Pairwise (·.seq < ·.seq) ∧
            window <:+ table ∧ window.length = (if limit ≤ 0 then table.length else min limit.toNat table.length) ∧
            Listing window (answer past (.recent c limit))) ∨
        ¬ Opened (history past) c ∧ answer past (.recent c limit) = .refused (Connection.closedError "recent") := by
  have hkeeps := keeps_after past
  refine ⟨(after past).connected_iff, fun c now d => ?_, fun a ha => ?_, fun c limit => ?_⟩
  · rw [← isOpen_after]
    cases hopen : ((after past).connection c).isOpen with
    | true =>
      refine .inl ⟨rfl, _, congrArg Prod.fst ((after past).step_record_of_open hopen now d), fun n hn => ?_⟩
      exact Nat.lt_succ_of_le (hkeeps.assigned n hn)
    | false => exact .inr ⟨Bool.false_ne_true, congrArg Prod.fst ((after past).step_record_of_closed hopen now d)⟩
  · rcases (after past).step_cases a with ⟨hrows, -⟩ | ⟨c, now, d, rfl, hreply, -⟩ | ⟨seq, rfl, hstep⟩ |
      ⟨seq, stamp, rfl, hstep⟩
    · exact hrows
    · rcases ha with ⟨cause, ha⟩ | ha | ⟨c, limit, ha⟩ | ⟨c, ha⟩
      · cases hreply.symm.trans ha
      all_goals cases ha
    · rcases ha with ⟨cause, ha⟩ | ha | ⟨c, limit, ha⟩ | ⟨c, ha⟩ <;> cases ha
    · rcases ha with ⟨cause, ha⟩ | ha | ⟨c, limit, ha⟩ | ⟨c, ha⟩ <;> cases ha
  · rw [← isOpen_after]
    cases hopen : ((after past).connection c).isOpen with
    | true =>
      refine .inl ⟨rfl, (after past).database.rows, newest limit (after past).database.rows, hkeeps.rows,
        hkeeps.ascending, newest_suffix limit _, length_newest limit _, ?_⟩
      rw [answer, (after past).step_recent_of_open hopen hkeeps.ascending]
      exact listing_of_ascending (hkeeps.ascending.sublist (newest_suffix limit _).sublist)
    | false => exact .inr ⟨Bool.false_ne_true, congrArg Prod.fst ((after past).step_recent_of_closed hopen limit)⟩

/-- A number is not used again when the newest row is deleted before the file is opened anew. -/
example :
    let draft : Draft := ⟨1, [0x37], "7", "", "", .utc .zero⟩
    let past := [Step.connect, .close 0, .delete 2, .record 0 ⟨0, 0⟩ draft, .record 0 ⟨0, 0⟩ draft, .connect]
    (answer past (.record 1 ⟨0, 0⟩ draft)).number? = some 3 ∧
      answer (.setStamp 1 "noon" :: .record 1 ⟨0, 0⟩ draft :: past) (.recent 1 2) =
        .refused (.outside "store: entry 1: bad timestamp \"noon\"") := by
  refine ⟨by decide, ?_⟩
  rw [answer, step_recent_of_open _ (by decide) (keeps_after _).ascending]
  decide

end SharedDatabase

end Octal
