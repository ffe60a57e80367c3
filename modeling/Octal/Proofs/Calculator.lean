import Mathlib
import Octal.Batch
import Octal.Command
import Octal.Proofs.Rebuild

/-!
# Calculators

What a calculator evaluates is fixed by the request that it gets (`Calculator.Request.inputs`), and what comes of it by
the session alone. So as far as its replies go a calculator is a session (`Calculator.reply_eq_of_session`), unless they
are about the transcript, and two calculators with the same settings give the same replies, whatever records them and
whatever becomes of their transcripts (`Calculator.converse_eq_of_settings`).
-/

namespace Octal

/-- A text that has been evaluated, with its result. -/
structure Evaluated where
  input : Bytes
  result : Except Error String

namespace Session

/-- Texts that are evaluated one after the other. -/
def evaluations (s : Session) : List Bytes → List Evaluated
  | [] => []
  | input :: rest => ⟨input, s.evaluate (.complete input)⟩ :: (s.after (.complete input)).evaluations rest

theorem map_input_evaluations (s : Session) (inputs : List Bytes) :
    (s.evaluations inputs).map Evaluated.input = inputs := by
  induction inputs generalizing s with
  | nil => rfl
  | cons input rest ih => rw [evaluations, List.map_cons, ih]

theorem evaluations_append (s : Session) (inputs more : List Bytes) :
    s.evaluations (inputs ++ more) =
      s.evaluations inputs ++ (s.replay (inputs.map .complete)).evaluations more := by
  induction inputs generalizing s with
  | nil => rfl
  | cons input rest ih => exact congrArg _ (ih (s.after (.complete input)))

end Session

namespace Calculator

@[simp] theorem answer_evaluate (c : Calculator) (now : Instant) (input : Bytes) :
    (c.evaluate now input).answer = c.session.evaluate (.complete input) := rfl

@[simp] theorem session_evaluate (c : Calculator) (now : Instant) (input : Bytes) :
    (c.evaluate now input).next.session = c.session.after (.complete input) := rfl

/-- The calculator after evaluating texts one after the other. -/
def evaluateAll (c : Calculator) (now : Instant) (inputs : List Bytes) : Calculator :=
  inputs.foldl (fun c input => (c.evaluate now input).next) c

theorem session_evaluateAll (c : Calculator) (now : Instant) (inputs : List Bytes) :
    (c.evaluateAll now inputs).session = c.session.replay (inputs.map .complete) := by
  induction inputs generalizing c with
  | nil => rfl
  | cons input inputs ih =>
    rw [evaluateAll, List.foldl_cons, ← evaluateAll, ih, session_evaluate]
    rfl

end Calculator

/-! ### Batches -/

namespace Batch

/-- The texts that a batch of `lines` evaluates. -/
def inputs (lines : List Bytes) : List Bytes := (lines.map Text.trim).filter (!isSkipped ·)

theorem runLines_eq (c : Calculator) (now : Instant) (lines : List Bytes) :
    (runLines c now lines).failed = (c.session.evaluations (inputs lines)).any (!·.result.isOk) ∧
    (runLines c now lines).output = (c.session.evaluations (inputs lines)).flatMap (fun e => answer e.input e.result) ∧
    (runLines c now lines).errors = [] ∧
    (runLines c now lines).next = c.evaluateAll now (inputs lines) := by
  induction lines generalizing c with
  | nil => exact ⟨rfl, rfl, rfl, rfl⟩
  | cons line lines ih =>
    rw [runLines]
    cases hskip : isSkipped (Text.trim line) with
    | true =>
      have hinputs : inputs (line :: lines) = inputs lines := by
        rw [inputs, List.map_cons, List.filter_cons_of_neg (by simp [hskip]), ← inputs]
      rw [hinputs]
      exact ih c
    | false =>
      have hinputs : inputs (line :: lines) = Text.trim line :: inputs lines := by
        rw [inputs, List.map_cons, List.filter_cons_of_pos (by simp [hskip]), ← inputs]
      obtain ⟨hfailed, houtput, herrors, hnext⟩ := ih (c.evaluate now (Text.trim line)).next
      rw [Calculator.session_evaluate] at hfailed houtput
      simp only [Bool.false_eq_true, ↓reduceIte, Calculator.answer_evaluate, hinputs, Session.evaluations,
        List.any_cons, List.flatMap_cons, hfailed, houtput, herrors, hnext, true_and]
      rfl

/-- All of a run follows from the evaluations of its texts and from how the reading ended. -/
theorem run_eq (c : Calculator) (now : Instant) (src : Source) :
    (run c now src).failed =
      ((c.session.evaluations (inputs src.readLines.1)).any (!·.result.isOk) || src.readLines.2.isSome) ∧
    (run c now src).output =
      (c.session.evaluations (inputs src.readLines.1)).flatMap (fun e => answer e.input e.result) ∧
    (run c now src).errors = src.readLines.2.elim [] (fun cause =>
      Bytes.ofString ("Error reading input: " ++ cause.message ++ "\n")) ∧
    (run c now src).next = c.evaluateAll now (inputs src.readLines.1) := by
  rw [run]
  rcases src.readLines with ⟨lines, fault⟩
  obtain ⟨hfailed, houtput, herrors, hnext⟩ := runLines_eq c now lines
  rcases fault with _ | cause
  · exact ⟨hfailed.trans (Bool.or_false _).symm, houtput, herrors, hnext⟩
  · exact ⟨(Bool.or_true _).symm, houtput, rfl, hnext⟩

end Batch

namespace Calculator

/-! ### Requests -/

inductive Request where
  | evaluate (input : Bytes)
  | evaluateReader (src : Source)
  | evaluateFile (disk : Disk) (path : String)
  | batch (src : Source)
  | command (input : Bytes)
  | functions
  | definition (name : String)
  | history (limit : Int)
  | close

inductive Reply where
  | result (r : Except Error String)
  | batch (code : Nat) (output errors : Bytes)
  | command (quits : Bool) (output : Bytes)
  | functions (names : List String)
  | definition (text : Option String)
  | history (r : Except Error (List Entry))
  | closed

def reply (c : Calculator) (now : Instant) : Request → Reply × Calculator
  | .evaluate input => (.result (c.evaluate now input).answer, (c.evaluate now input).next)
  | .evaluateReader src => (.result (c.evaluateSource now src).answer, (c.evaluateSource now src).next)
  | .evaluateFile disk path => (.result (c.evaluateFile now disk path).answer, (c.evaluateFile now disk path).next)
  | .batch src =>
    let r := Batch.run c now src
    (.batch r.code r.output r.errors, r.next)
  | .command input =>
    let command := Command.parse input
    (.command (command = .quit) (command.output c), c)
  | .functions => (.functions c.functions, c)
  | .definition name => (.definition (c.definition? name), c)
  | .history limit => (.history (c.history limit), c)
  | .close => (.closed, c.close)

namespace Request

/-- What there is to evaluate in a source: all of it, or nothing if it cannot be read to its end. -/
def ofSource (src : Source) : List Bytes :=
  match src.ending with
  | .complete => [src.text]
  | .cutOff _ => []

/-- The texts that a request has evaluated. -/
def inputs : Request → List Bytes
  | evaluate input => [input]
  | evaluateReader src => ofSource src
  | evaluateFile disk path =>
    match disk.openFile path with
    | .ok src => ofSource src
    | .error _ => []
  | batch src => Batch.inputs src.readLines.1
  | command _ | functions | definition _ | history _ | close => []

/-- Whether the reply tells about the transcript. -/
def asksHistory : Request → Bool
  | history _ => true
  | command input =>
    match Command.parse input with
    | .history _ => true
    | _ => false
  | _ => false

end Request

section
variable (c : Calculator) (now : Instant)

theorem evaluateSource_eq (src : Source) :
    (c.evaluateSource now src).next = c.evaluateAll now (Request.ofSource src) := by
  rw [evaluateSource, Request.ofSource]
  cases src.ending <;> rfl

/-- A request does nothing to a calculator but to have texts evaluated and, at the end, to close it. -/
theorem next_reply (r : Request) :
    (c.reply now r).2 = match r with
      | .close => c.close
      | r => c.evaluateAll now r.inputs := by
  cases r with
  | evaluateReader src => exact c.evaluateSource_eq now src
  | evaluateFile disk path =>
    simp only [reply, evaluateFile, Request.inputs]
    cases disk.openFile path with
    | ok src => exact c.evaluateSource_eq now src
    | error cause => rfl
  | batch src => exact (Batch.run_eq c now src).2.2.2
  | evaluate | command | functions | definition | history | close => rfl

theorem session_reply (r : Request) : (c.reply now r).2.session = c.session.replay (r.inputs.map .complete) := by
  rw [next_reply]
  cases r with
  | close => rfl
  | _ => exact c.session_evaluateAll now _

end

/-! ### Two calculators -/

section
variable {c c' : Calculator} (h : c.session = c'.session)
include h

theorem command_eq_of_session {command : Command} (hc : ∀ limit, command ≠ .history limit) :
    command.output c = command.output c' := by
  have hfunctions : c.functions = c'.functions := congrArg Session.functions h
  have hdefinition : c.definition? = c'.definition? := funext fun name => congrArg (Session.definition? · name) h
  cases command with
  | functions => rw [Command.output, Command.output, hfunctions, hdefinition]
  | definition name => rw [Command.output, Command.output, Command.definitionOf, Command.definitionOf, hdefinition]
  | history limit => exact absurd rfl (hc limit)
  | quit | help | definitionUsage | historyUsage | unknown => rfl

/-- A reply that is not about the transcript is the session's. -/
theorem reply_eq_of_session {r : Request} (hr : r.asksHistory = false) (now now' : Instant) :
    (c.reply now r).1 = (c'.reply now' r).1 := by
  have hevaluate (input : Bytes) : (c.evaluate now input).answer = (c'.evaluate now' input).answer := by
    rw [answer_evaluate, answer_evaluate, h]
  have hsource (src : Source) : (c.evaluateSource now src).answer = (c'.evaluateSource now' src).answer := by
    rw [evaluateSource, evaluateSource]
    cases src.ending with
    | complete => exact hevaluate src.text
    | cutOff cause => rfl
  cases r with
  | evaluate input => exact congrArg Reply.result (hevaluate input)
  | evaluateReader src => exact congrArg Reply.result (hsource src)
  | evaluateFile disk path =>
    simp only [reply, evaluateFile]
    cases disk.openFile path with
    | ok src => exact congrArg Reply.result (hsource src)
    | error cause => rfl
  | batch src =>
    obtain ⟨hfailed, houtput, herrors, -⟩ := Batch.run_eq c now src
    obtain ⟨hfailed', houtput', herrors', -⟩ := Batch.run_eq c' now' src
    rw [← h] at hfailed' houtput'
    simp only [reply, Run.code, hfailed, houtput, herrors, hfailed', houtput', herrors']
  | command input =>
    have hcommand : ∀ limit, Command.parse input ≠ .history limit := by
      intro limit hlimit
      rw [Request.asksHistory, hlimit] at hr
      cases hr
    simp only [reply, command_eq_of_session h hcommand]
  | functions => exact congrArg (fun s => Reply.functions s.functions) h
  | definition name => exact congrArg (fun s => Reply.definition (s.definition? name)) h
  | history limit => cases hr
  | close => rfl

end

/-- What surrounds a request: the time, and what happens to the transcript from outside before it is made. -/
structure Surroundings where
  now : Instant
  outside : Option Transcript → Option Transcript

/-- The calculator after its transcript has been changed from outside. -/
def meddle (c : Calculator) (outside : Option Transcript → Option Transcript) : Calculator :=
  { c with transcript := outside c.transcript }

/-- The replies to requests, each in its surroundings, and the calculator after them. -/
def converse (c : Calculator) (around : Nat → Surroundings) : List Request → List Reply × Calculator
  | [] => ([], c)
  | r :: rest =>
    let answered := (c.meddle (around 0).outside).reply (around 0).now r
    let more := answered.2.converse (around <| · + 1) rest
    (answered.1 :: more.1, more.2)

theorem converse_eq_of_session {c c' : Calculator} (h : c.session = c'.session) (around around' : Nat → Surroundings)
    (requests : List Request) {i : Nat} {r : Request} (hi : requests[i]? = some r) (hr : r.asksHistory = false) :
    ∃ reply, (c.converse around requests).1[i]? = some reply ∧ (c'.converse around' requests).1[i]? = some reply := by
  induction requests generalizing c c' around around' i with
  | nil => cases hi
  | cons first rest ih =>
    have hmeddled : (c.meddle (around 0).outside).session = (c'.meddle (around' 0).outside).session := h
    rw [converse, converse]
    cases i with
    | zero =>
      obtain rfl : first = r := Option.some.inj hi
      have hreply := reply_eq_of_session hmeddled hr (around 0).now (around' 0).now
      rw [List.getElem?_cons_zero, List.getElem?_cons_zero, hreply]
      exact ⟨_, rfl, rfl⟩
    | succ i =>
      rw [List.getElem?_cons_succ, List.getElem?_cons_succ]
      refine ih ?_ _ _ hi
      rw [session_reply, session_reply, hmeddled]

/-- The settings for evaluation that choices come to. -/
def Choice.settings (choices : List Choice) : Settings := (choices.foldl Plan.choose .start).settings

theorem session_of_new {disk : Disk} {choices : List Choice} {c : Calculator} (h : new disk choices = .ok c) :
    c.session = .new (Choice.settings choices) := by
  rw [new] at h
  cases ht : (choices.foldl Plan.choose .start).openTranscript disk with
  | error cause =>
    rw [ht] at h
    cases h
  | ok t =>
    rw [ht] at h
    cases h
    rfl

/-- Two calculators that are set up with the same settings for evaluation give the same replies to the same requests,
whatever transcripts and loggers they have, and whatever happens to their transcripts in the meantime. Only what is said
about the transcript itself can differ. -/
theorem converse_eq_of_settings {disk disk' : Disk} {choices choices' : List Choice} {c c' : Calculator}
    (hc : new disk choices = .ok c) (hc' : new disk' choices' = .ok c')
    (hs : Choice.settings choices = Choice.settings choices') (around around' : Nat → Surroundings)
    (requests : List Request) (i : Nat) (r : Request) (hi : requests[i]? = some r) (hr : r.asksHistory = false) :
    ∃ reply, (c.converse around requests).1[i]? = some reply ∧ (c'.converse around' requests).1[i]? = some reply := by
  refine converse_eq_of_session ?_ around around' requests hi hr
  rw [session_of_new hc, session_of_new hc', hs]

/-- A calculator on its own, and one that logs everything and has a closed database that refuses every entry. -/
theorem converse_eq_of_settings_refused :
    let choices := [Choice.maxDepth (-1), .transcript (.database "t.db" ⟨.fresh, false⟩), .logger (.plain .debug)]
    let requests := [Request.evaluate (Bytes.ofString "DEF f(x) = x + 1"), .close, .evaluate (Bytes.ofString "f(7)")]
    let around : Nat → Surroundings := fun _ => ⟨.zero, id⟩
    ∃ c c', new (.empty "/") [] = .ok c ∧ new (.empty "/") choices = .ok c' ∧
      Choice.settings [] = Choice.settings choices ∧
      (c.converse around requests).1[2]? = some (.result (.ok "10")) ∧
      (c'.converse around requests).1[2]? = some (.result (.ok "10")) := by
  intro choices requests around
  have hc : new (.empty "/") [] = .ok ⟨.new .default, none, none⟩ := rfl
  have hc' : new (.empty "/") choices =
      .ok ⟨.new .default, some (.database "t.db" ⟨.fresh, false⟩), some (.plain .debug)⟩ := rfl
  refine ⟨_, _, hc, hc', rfl, ?_⟩
  obtain ⟨reply, halone, hrefused⟩ := converse_eq_of_settings hc hc' rfl around around requests 2 _ rfl rfl
  have hreply : (converse ⟨.new .default, none, none⟩ around requests).1[2]? = some (.result (.ok "10")) := by
    cbv
  rw [← hreply, halone]
  exact ⟨rfl, hrefused⟩

end Calculator

end Octal
