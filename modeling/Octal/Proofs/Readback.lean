import Mathlib
import Octal.Proofs.Database

/-!
# Reading back what was recorded

A time is stored as text. Where nobody else writes times into the file, a listing tells the entries as they were
recorded, exactly when all of them are from the years 0 to 9999 in UTC (`SharedDatabase.recent_lists_recorded`). An
offset can move a time that is written with four digits out of these years. Such an entry is recorded all the same, and
from then on no listing that reaches back to it succeeds (`SharedDatabase.recent_refused_before_year_zero`).
-/

namespace Octal

/-! ### Entries of any year -/

/-- The entry is told in UTC, with less than a second of nanoseconds. -/
def Entry.Stamped (e : Entry) : Prop := ∃ t : Instant, t.nanos < 1000000000 ∧ e.time = .utc t

/-- The year in UTC has four digits and no sign. -/
def Entry.InYears (e : Entry) : Prop :=
  0 ≤ e.time.instant.toCivil.year ∧ e.time.instant.toCivil.year ≤ 9999

namespace Row

def unreadable (e : Entry) : Error :=
  .outside ("store: entry " ++ e.seq.repr ++ ": bad timestamp " ++ Text.quote e.time.instant.render)

theorem toEntry_of_inYears {e : Entry} (h : e.Stamped) (hyear : e.InYears) : (ofEntry e).toEntry = .ok e := by
  obtain ⟨t, hnanos, htime⟩ := h
  rw [Entry.InYears, htime] at hyear
  exact toEntry_ofEntry ⟨t, ⟨hyear, hnanos⟩, htime⟩

theorem toEntry_of_not_inYears {e : Entry} (h : ¬ e.InYears) : (ofEntry e).toEntry = .error (unreadable e) := by
  have hnone : Moment.parse? (ofEntry e).stamp = none := Moment.parse?_render_eq_none h
  rw [toEntry, hnone]
  rfl

/-- Stored entries are all told again, or the first one that is not of these years is to blame. -/
theorem mapM_toEntry_stamped {es : List Entry} (h : ∀ e ∈ es, e.Stamped) :
    (∀ e ∈ es, e.InYears) ∧ (es.map ofEntry).mapM toEntry = .ok es ∨
      ∃ front e rest, es = front ++ e :: rest ∧ (∀ x ∈ front, x.InYears) ∧ ¬ e.InYears ∧
        (es.map ofEntry).mapM toEntry = .error (unreadable e) := by
  induction es with
  | nil => exact .inl ⟨List.forall_mem_nil _, rfl⟩
  | cons e es ih =>
    obtain ⟨he, hes⟩ := List.forall_mem_cons.1 h
    rw [List.map_cons, List.mapM_cons]
    by_cases hyear : e.InYears
    · rw [toEntry_of_inYears he hyear]
      rcases ih hes with ⟨hyears, hok⟩ | ⟨front, x, rest, rfl, hfront, hx, herror⟩
      · rw [hok]
        exact .inl ⟨List.forall_mem_cons.2 ⟨hyear, hyears⟩, rfl⟩
      · rw [herror]
        exact .inr ⟨e :: front, x, rest, rfl, List.forall_mem_cons.2 ⟨hyear, hfront⟩, hx, rfl⟩
    · rw [toEntry_of_not_inYears hyear]
      exact .inr ⟨[], e, es, rfl, List.forall_mem_nil _, hyear, rfl⟩

end Row

namespace SharedDatabase

/-! ### The entries of a history -/

/-- The entries that were recorded and not deleted since, oldest first. -/
def entries : List (Step × Answer) → List Entry
  | [] => []
  | (.record .., .recorded e) :: past => entries past ++ [e]
  | (.delete seq, _) :: past => (entries past).filter (·.seq ≠ seq)
  | _ :: past => entries past

/-- No time is written into the file but that of an entry: one that a text tells, or the clock's. -/
def Step.Genuine : Step → Prop
  | .setStamp .. => False
  | .record _ now d =>
    now.nanos < 1000000000 ∧
      (d.time.instant ≠ .zero → ∃ text offset, Moment.parse? text = some ⟨d.time.instant, offset⟩)
  | _ => True

theorem nanos_lt_of_genuine {c : Nat} {now : Instant} {d : Draft} (h : (Step.record c now d).Genuine) :
    (d.stamp now).instant.nanos < 1000000000 := by
  obtain ⟨hnow, htime⟩ := h
  unfold Draft.stamp
  split
  · exact hnow
  · next hzero =>
    obtain ⟨text, offset, hparse⟩ := htime hzero
    have hnanos : (Moment.mk d.time.instant offset).instant.nanos < 1000000000 := Moment.nanos_lt_of_parse? hparse
    exact hnanos

theorem entries_quiet {past : List (Step × Answer)} {a : Step} {reply : Answer} (ha : ∀ n, ¬ a.Touches n)
    (hreply : reply.number? = none) : entries ((a, reply) :: past) = entries past := by
  cases a with
  | record c now d =>
    cases reply with
    | recorded e => cases hreply
    | connected | listed | refused | done => rfl
  | delete seq => exact absurd rfl (ha seq)
  | connect | recent | close | setStamp | setVersion => rfl

/-- The table stores the entries of its history. -/
theorem rows_after {past : List Step} (h : ∀ a ∈ past, a.Genuine) :
    (after past).database.rows = (entries (history past)).map Row.ofEntry := by
  induction past with
  | nil => rfl
  | cons a past ih =>
    obtain ⟨ha, hpast⟩ := List.forall_mem_cons.1 h
    have ih := ih hpast
    rw [after, history, answer]
    rcases (after past).step_cases a with ⟨hrows, -, htouch, hreply⟩ | ⟨c, now, d, rfl, hreply, hdb⟩ |
      ⟨seq, rfl, hstep⟩ | ⟨seq, stamp, rfl, -⟩
    · rw [hrows, entries_quiet htouch hreply, ih]
    · rw [hreply, hdb, entries, List.map_append, ← ih]
      rfl
    · rw [hstep, entries, Database.delete, ih, List.filter_map]
      rfl
    · exact absurd ha id

/-- What is recorded of a draft: all that it says, and the time it was stamped with. -/
theorem eq_of_recorded {past : List Step} {c : Nat} {now : Instant} {d : Draft} {e : Entry}
    (h : (.record c now d, .recorded e) ∈ history past) :
    e = ⟨e.seq, d.input, d.result, d.kind, d.message, .utc (d.stamp now).instant⟩ := by
  induction past with
  | nil => cases h
  | cons a past ih =>
    rw [history] at h
    rcases List.mem_cons.1 h with h | h
    · obtain ⟨rfl, hreply⟩ := Prod.mk.inj h
      rcases (after past).step_cases (.record c now d) with ⟨-, -, -, hnone⟩ | ⟨c', now', d', hstep, hrecorded, -⟩ |
        ⟨_, hstep, -⟩ | ⟨_, _, hstep, -⟩
      · rw [← answer, ← hreply] at hnone
        cases hnone
      · cases hstep
        rw [← answer, ← hreply] at hrecorded
        cases hrecorded
        rfl
      all_goals cases hstep
    · exact ih h

theorem exists_recorded {past : List (Step × Answer)} {e : Entry} (h : e ∈ entries past) :
    ∃ c now d, (.record c now d, .recorded e) ∈ past := by
  induction past using entries.induct with
  | case1 => cases h
  | case2 c now d x past ih =>
    rcases List.mem_append.1 h with h | h
    · obtain ⟨c', now', d', hmem⟩ := ih h
      exact ⟨c', now', d', List.mem_cons_of_mem _ hmem⟩
    · rw [List.mem_singleton.1 h]
      exact ⟨c, now, d, List.mem_cons_self⟩
  | case3 seq reply past ih =>
    obtain ⟨c', now', d', hmem⟩ := ih (List.mem_filter.1 h).1
    exact ⟨c', now', d', List.mem_cons_of_mem _ hmem⟩
  | case4 event past hrecord hdelete ih =>
    rw [entries] at h
    · obtain ⟨c', now', d', hmem⟩ := ih h
      exact ⟨c', now', d', List.mem_cons_of_mem _ hmem⟩
    · exact hrecord
    · exact hdelete

theorem map_fst_history (past : List Step) : (history past).map Prod.fst = past := by
  induction past with
  | nil => rfl
  | cons a past ih => rw [history, List.map_cons, ih]

theorem stamped_of_mem {past : List Step} (h : ∀ a ∈ past, a.Genuine) {e : Entry} (he : e ∈ entries (history past)) :
    e.Stamped := by
  obtain ⟨c, now, d, hmem⟩ := exists_recorded he
  have hstep : Step.record c now d ∈ past := by
    rw [← map_fst_history past]
    exact List.mem_map_of_mem hmem
  refine ⟨(d.stamp now).instant, nanos_lt_of_genuine (h _ hstep), ?_⟩
  rw [eq_of_recorded hmem]

/-! ### Listings -/

theorem eq_newest_of_suffix {α : Type} {limit : Int} {window xs : List α} (h : window <:+ xs)
    (hlength : window.length = if limit ≤ 0 then xs.length else min limit.toNat xs.length) :
    window = newest limit xs := by
  rw [← length_newest] at hlength
  rw [List.suffix_iff_eq_drop.1 h, List.suffix_iff_eq_drop.1 (newest_suffix limit xs), hlength]

/-- Where all times in a file come from recording, every entry has the time that it was stamped with, and a listing
tells the newest entries as they were recorded if they are from the years 0 to 9999 in UTC. Otherwise it fails, and
blames the first that is not. -/
theorem recent_lists_recorded {past : List Step} (hpast : ∀ a ∈ past, a.Genuine) :
    (∀ c now d e, (.record c now d, .recorded e) ∈ history past →
      e = ⟨e.seq, d.input, d.result, d.kind, d.message, .utc (d.stamp now).instant⟩) ∧
    ∀ c limit window, Opened (history past) c → window <:+ entries (history past) →
      window.length =
        (if limit ≤ 0 then (entries (history past)).length else min limit.toNat (entries (history past)).length) →
      (∀ e ∈ window, e.InYears) ∧ answer past (.recent c limit) = .listed window ∨
        ∃ front e rest, window = front ++ e :: rest ∧ (∀ x ∈ front, x.InYears) ∧ ¬ e.InYears ∧
          answer past (.recent c limit) = .refused (.outside
            ("store: entry " ++ e.seq.repr ++ ": bad timestamp " ++ Text.quote e.time.instant.render)) := by
  refine ⟨fun c now d e h => eq_of_recorded h, ?_⟩
  intro c limit window hopen hsuffix hlength
  have hstamped : ∀ e ∈ window, e.Stamped := fun e he => stamped_of_mem hpast (hsuffix.subset he)
  have hwindow := eq_newest_of_suffix hsuffix hlength
  have hanswer : answer past (.recent c limit) = .ofListing ((window.map Row.ofEntry).mapM Row.toEntry) := by
    rw [answer, step_recent_of_open _ ((isOpen_after past c).2 hopen) (keeps_after past).ascending, rows_after hpast,
      newest_map, ← hwindow]
  rw [hanswer]
  rcases Row.mapM_toEntry_stamped hstamped with ⟨hyears, hok⟩ | ⟨front, e, rest, hsplit, hfront, he, herror⟩
  · rw [hok]
    exact .inl ⟨hyears, rfl⟩
  · rw [herror]
    exact .inr ⟨front, e, rest, hsplit, hfront, he, rfl⟩

/-- Two entries from next to the end of the year 9999, of which an offset takes the first to the year 10000. -/
theorem recent_lists_recorded_year_end :
    let late : Entry := ⟨1, [0x37], "7", "", "", .utc ⟨253402300859, 0⟩⟩
    let last : Entry := ⟨2, [0x38], "", "parse", "parse error", .utc ⟨253402300799, 999999999⟩⟩
    let past := [Step.record 0 ⟨0, 0⟩ ⟨0, [0x38], "", "parse", "parse error", ⟨⟨253402300799, 999999999⟩, -60⟩⟩,
      .record 0 ⟨0, 0⟩ ⟨0, [0x37], "7", "", "", ⟨⟨253402300859, 0⟩, -60⟩⟩, .connect]
    (∀ a ∈ past, a.Genuine) ∧ Opened (history past) 0 ∧ entries (history past) = [late, last] ∧
      answer past (.recent 0 1) = .listed [last] ∧
      answer past (.recent 0 2) = .refused (.outside "store: entry 1: bad timestamp \"10000-01-01T00:00:59Z\"") := by
  intro late last past
  have hpast : ∀ a ∈ past, a.Genuine := by
    simp only [past, List.forall_mem_cons]
    refine ⟨⟨by decide, ?_⟩, ⟨by decide, ?_⟩, trivial, List.forall_mem_nil _⟩
    · exact fun _ => ⟨"9999-12-31T23:58:59.999999999-00:01", -60, by decide⟩
    · exact fun _ => ⟨"9999-12-31T23:59:59-00:01", -60, by decide⟩
  have hopen : Opened (history past) 0 := (isOpen_after past 0).1 (by decide)
  have hlate : ¬ late.InYears := fun h => absurd h.2 (by decide)
  have hlast : last.InYears := ⟨by decide, by decide⟩
  have hlisted := (recent_lists_recorded hpast).2 0
  refine ⟨hpast, hopen, rfl, ?_, ?_⟩
  · rcases hlisted 1 [last] hopen ⟨[late], rfl⟩ rfl with ⟨-, h⟩ | ⟨front, e, rest, hsplit, -, hyear, -⟩
    · exact h
    · have he : e ∈ front ++ e :: rest := List.mem_append_right _ List.mem_cons_self
      rw [← hsplit, List.mem_singleton] at he
      exact absurd (he ▸ hlast) hyear
  · rcases hlisted 2 [late, last] hopen List.suffix_rfl rfl with ⟨hyears, -⟩ | ⟨front, e, rest, hsplit, hfront, -, h⟩
    · exact absurd (hyears late List.mem_cons_self) hlate
    · cases front with
      | nil =>
        obtain ⟨rfl, -⟩ := List.cons.inj hsplit
        exact h.trans (by decide)
      | cons x front =>
        obtain ⟨rfl, -⟩ := List.cons.inj hsplit
        exact absurd (hfront late List.mem_cons_self) hlate

/-- The first hour of the year 0, an hour east of UTC, is in the year before. -/
theorem recent_refused_before_year_zero :
    let draft : Draft := ⟨0, [0x37], "7", "", "", ⟨⟨-62167222800, 0⟩, 3600⟩⟩
    let entry : Entry := ⟨1, [0x37], "7", "", "", .utc ⟨-62167222800, 0⟩⟩
    let past := [Step.record 0 ⟨0, 0⟩ draft, .connect]
    Moment.parse? "0000-01-01T00:00:00+01:00" = some draft.time ∧
      answer [.connect] (.record 0 ⟨0, 0⟩ draft) = .recorded entry ∧ entries (history past) = [entry] ∧
      answer past (.recent 0 0) =
        .refused (.outside "store: entry 1: bad timestamp \"-0001-12-31T23:00:00Z\"") := by
  refine ⟨by decide, by decide, by decide, ?_⟩
  rw [answer, step_recent_of_open _ (by decide) (keeps_after _).ascending]
  decide

end SharedDatabase

end Octal
