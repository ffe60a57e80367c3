import Mathlib
import Octal.Proofs.Calculator
import Octal.Proofs.Transcript

/-!
# Histories

A transcript in memory has one entry for each text that was evaluated, in order, and no others (`Memory.Logs`). An
evaluation adds its entry, and no request does anything else to the transcript. So whatever a calculator is asked, its
history is the log of what it has evaluated (`Calculator.history_logs_evaluations`).
-/

namespace Octal

theorem Error.category_ne_empty (e : Error) : e.category ≠ "" := by
  cases e <;> simp [category]

/-! ### Entries -/

/-- The entry is the one with number `seq`, about the evaluation `d`. -/
structure Entry.Tells (e : Entry) (seq : Nat) (d : Evaluated) : Prop where
  seq : e.seq = seq
  input : e.input = d.input
  failed : e.failed = !d.result.isOk
  outcome : match d.result with
    | .ok text => e.result = text ∧ e.kind = "" ∧ e.message = ""
    | .error cause => e.result = "" ∧ e.kind = cause.category ∧ e.kind ≠ "" ∧ e.message = cause.message

theorem Entry.tells_ofDraft (seq : Nat) (time : Moment) (d : Evaluated) :
    (ofDraft seq time (.ofResult d.input d.result)).Tells seq d := by
  obtain ⟨input, result⟩ := d
  cases result with
  | ok text => exact ⟨rfl, rfl, rfl, rfl, rfl, rfl⟩
  | error cause =>
    have hkind := cause.category_ne_empty
    exact ⟨rfl, rfl, bne_iff_ne.2 hkind, rfl, rfl, hkind, rfl⟩

/-- The entries are those of the evaluations `done`, one for each, numbered from 1. -/
structure Memory.Logs (m : Memory) (done : List Evaluated) : Prop where
  length : m.entries.length = done.length
  tells : ∀ (i : Nat) (e : Entry) (d : Evaluated), m.entries[i]? = some e → done[i]? = some d → e.Tells (i + 1) d

theorem Memory.logs_empty : Memory.empty.Logs [] := ⟨rfl, fun i e d he => by cases he⟩

theorem Memory.Logs.record {m : Memory} {done : List Evaluated} (h : m.Logs done) (now : Instant) (d : Evaluated) :
    (m.record now (.ofResult d.input d.result)).2.Logs (done ++ [d]) := by
  refine ⟨by simp [Memory.record, h.length], ?_⟩
  intro i e d' he hd
  simp only [Memory.record] at he
  by_cases hi : i < m.entries.length
  · rw [List.getElem?_append_left hi] at he
    rw [List.getElem?_append_left (h.length ▸ hi)] at hd
    exact h.tells i e d' he hd
  · have hlast : i = m.entries.length := by
      have hlt := (List.getElem?_eq_some_iff.1 he).1
      rw [List.length_append, List.length_singleton] at hlt
      omega
    subst hlast
    rw [List.getElem?_concat_length] at he
    rw [h.length, List.getElem?_concat_length] at hd
    cases he
    cases hd
    exact Entry.tells_ofDraft _ _ _

/-! ### Calculators that log -/

namespace Calculator

/-- The calculator has a transcript in memory, which is the log of `done`. -/
def Logs (c : Calculator) (done : List Evaluated) : Prop :=
  ∃ m : Memory, c.transcript = some (.memory m) ∧ m.Logs done

namespace Logs
variable {c : Calculator} {past : List Evaluated}

theorem evaluate (h : c.Logs past) (now : Instant) (input : Bytes) :
    (c.evaluate now input).next.Logs (past ++ [⟨input, c.session.evaluate (.complete input)⟩]) := by
  obtain ⟨m, hm, hlogs⟩ := h
  refine ⟨_, ?_, hlogs.record now ⟨input, c.session.evaluate (.complete input)⟩⟩
  show (keep c.transcript now _).1 = _
  rw [hm]
  rfl

theorem evaluateAll (h : c.Logs past) (now : Instant) (inputs : List Bytes) :
    (c.evaluateAll now inputs).Logs (past ++ c.session.evaluations inputs) := by
  induction inputs generalizing c past with
  | nil =>
    rw [Session.evaluations, List.append_nil]
    exact h
  | cons input rest ih =>
    rw [Session.evaluations, List.append_cons]
    exact ih (h.evaluate now input)

theorem close (h : c.Logs past) : c.close.Logs past := by
  obtain ⟨m, hm, hlogs⟩ := h
  refine ⟨m, ?_, hlogs⟩
  rw [Calculator.close, hm]
  rfl

theorem reply (h : c.Logs past) (now : Instant) (r : Request) :
    (c.reply now r).2.Logs (past ++ c.session.evaluations r.inputs) := by
  rw [next_reply]
  cases r with
  | close =>
    rw [Request.inputs, Session.evaluations, List.append_nil]
    exact h.close
  | _ => exact h.evaluateAll now _

end Logs

/-! ### Replies and what was evaluated for them -/

/-- What a source gives when all of it, or nothing if it cannot be read to its end, is evaluated. -/
def Request.AnsweredSource (src : Source) (done : List Evaluated) (r : Except Error String) : Prop :=
  match src.ending with
  | .complete => done = [⟨src.text, r⟩]
  | .cutOff cause => done = [] ∧ r = .error cause

/-- The reply fits the request, when `done` was evaluated for it after all of `past`. -/
def Request.Answered (past done : List Evaluated) : Request → Reply → Prop
  | evaluate input, .result r => done = [⟨input, r⟩]
  | evaluateReader src, .result r => AnsweredSource src done r
  | evaluateFile disk path, .result r =>
    match disk.openFile path with
    | .ok src => AnsweredSource src done r
    | .error cause => done = [] ∧ r = .error cause
  | batch src, .batch code output _ =>
    done.map Evaluated.input = Batch.inputs src.readLines.1 ∧
    output = done.flatMap (fun d => Batch.answer d.input d.result) ∧
    (code = 0 ↔ (∀ d ∈ done, d.result.isOk = true) ∧ src.readLines.2 = none)
  | history limit, .history r => done = [] ∧ ∃ m : Memory, m.Logs past ∧ r = .ok (m.recent limit)
  | command _, .command _ _ | functions, .functions _ | definition _, .definition _ | close, .closed => done = []
  | _, _ => False

/-- Requests with their replies, from the evaluations before the first request to all of them. -/
inductive Conversation : List Evaluated → List Request → List Reply → List Evaluated → Prop where
  | nil (past : List Evaluated) : Conversation past [] [] past
  | cons {past done all : List Evaluated} {r : Request} {reply : Reply} {rest : List Request} {replies : List Reply} :
    r.Answered past done reply → Conversation (past ++ done) rest replies all →
      Conversation past (r :: rest) (reply :: replies) all

theorem answered_source (c : Calculator) (now : Instant) (src : Source) :
    Request.AnsweredSource src (c.session.evaluations (Request.ofSource src)) (c.evaluateSource now src).answer := by
  rw [Request.AnsweredSource, Request.ofSource, evaluateSource]
  cases src.ending with
  | complete => rfl
  | cutOff cause => exact ⟨rfl, rfl⟩

theorem answered_batch (c : Calculator) (now : Instant) (src : Source) (past : List Evaluated) :
    (Request.batch src).Answered past (c.session.evaluations (Batch.inputs src.readLines.1))
      (c.reply now (.batch src)).1 := by
  obtain ⟨hfailed, houtput, -, -⟩ := Batch.run_eq c now src
  refine ⟨Session.map_input_evaluations _ _, houtput, ?_⟩
  have hcode : (Batch.run c now src).code = 0 ↔ (Batch.run c now src).failed = false := by
    rw [Run.code]
    cases (Batch.run c now src).failed <;> simp
  rw [hcode, hfailed, Bool.or_eq_false_iff, List.any_eq_false, Option.isSome_eq_false_iff, Option.isNone_iff_eq_none]
  simp

theorem Logs.answered {c : Calculator} {past : List Evaluated} (h : c.Logs past) (now : Instant) (r : Request) :
    r.Answered past (c.session.evaluations r.inputs) (c.reply now r).1 := by
  cases r with
  | evaluateReader src => exact c.answered_source now src
  | evaluateFile disk path =>
    simp only [Request.Answered, Calculator.reply, evaluateFile, Request.inputs]
    cases disk.openFile path with
    | ok src => exact c.answered_source now src
    | error cause => exact ⟨rfl, rfl⟩
  | batch src => exact c.answered_batch now src past
  | history limit =>
    obtain ⟨m, hm, hlogs⟩ := h
    refine ⟨rfl, m, hlogs, ?_⟩
    rw [history, hm]
    rfl
  | evaluate | command | functions | definition | close => rfl

/-- Surroundings in which nothing happens to the transcript from outside. -/
def Surroundings.quiet (clock : Nat → Instant) (i : Nat) : Surroundings := ⟨clock i, id⟩

theorem Logs.converse {c : Calculator} {past : List Evaluated} (h : c.Logs past) (clock : Nat → Instant)
    (requests : List Request) :
    let all := past ++ c.session.evaluations (requests.flatMap Request.inputs)
    Conversation past requests (c.converse (.quiet clock) requests).1 all ∧
      (c.converse (.quiet clock) requests).2.Logs all := by
  induction requests generalizing c past clock with
  | nil =>
    rw [List.flatMap_nil, Session.evaluations, List.append_nil]
    exact ⟨.nil past, h⟩
  | cons r rest ih =>
    obtain ⟨htalk, hlogs⟩ := ih (h.reply (clock 0) r) (clock <| · + 1)
    rw [session_reply, List.append_assoc, ← Session.evaluations_append] at htalk hlogs
    rw [List.flatMap_cons]
    exact ⟨.cons (h.answered (clock 0) r) htalk, hlogs⟩

/-- Whatever is asked of a calculator that starts with an empty transcript in memory: it is answered by evaluating the
texts of the requests one after the other, and the history is the log of these evaluations. -/
theorem history_logs_evaluations {c : Calculator} (h : c.transcript = some (.memory .empty)) (clock : Nat → Instant)
    (requests : List Request) :
    let all := c.session.evaluations (requests.flatMap Request.inputs)
    let run := c.converse (.quiet clock) requests
    Conversation [] requests run.1 all ∧
    ∃ m : Memory, m.Logs all ∧ run.2.history 0 = .ok m.entries ∧
      ∀ k : Int, 0 < k → ∃ shown, run.2.history k = .ok shown ∧ shown <:+ m.entries ∧
        shown.length = min k.toNat m.entries.length := by
  obtain ⟨htalk, m, hm, hlogs⟩ := Logs.converse ⟨.empty, h, Memory.logs_empty⟩ clock requests
  refine ⟨htalk, m, hlogs, ?_, ?_⟩
  · rw [history, hm]
    rfl
  · intro k hk
    refine ⟨m.recent k, ?_, ?_, ?_⟩
    · rw [history, hm]
      rfl
    · rw [m.recent_eq]
      exact newest_suffix k m.entries
    · rw [m.recent_eq, length_newest, if_neg (by omega)]

/-- A sum, a source that cannot be read, and a batch with a comment, a blank line and a division by zero. -/
theorem history_logs_evaluations_division :
    let c : Calculator := ⟨.new .default, some (.memory .empty), none⟩
    let requests := [Request.evaluate (Bytes.ofString "7 + 1"), .evaluateReader ⟨Bytes.ofString "2", .cutOff .overflow⟩,
      .batch (.ofString "# zero\n\n 1 / 0 \n"), .close]
    ∃ m : Memory, (c.converse (.quiet fun _ => .zero) requests).2.history 0 = .ok m.entries ∧
      m.Logs [⟨Bytes.ofString "7 + 1", .ok "10"⟩, ⟨Bytes.ofString "1 / 0", .error .divisionByZero⟩] := by
  intro c requests
  have hc : c.transcript = some (.memory .empty) := rfl
  obtain ⟨-, m, hlogs, hhistory, -⟩ := history_logs_evaluations hc (fun _ => .zero) requests
  have hall : c.session.evaluations (requests.flatMap Request.inputs) =
      [⟨Bytes.ofString "7 + 1", .ok "10"⟩, ⟨Bytes.ofString "1 / 0", .error .divisionByZero⟩] := by
    cbv
  rw [hall] at hlogs
  exact ⟨m, hhistory, hlogs⟩

end Calculator

end Octal
