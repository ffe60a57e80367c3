import Mathlib
import Octal.Proofs.Lenient

/-!
# Sources that are cut off

A source that is cut off fails, and the statements executed before that are the first ones of the whole source, with
the same trees (`Session.outcome_cutAt`).

The scanner has the same state in both sources when it has read their common runes. What the shorter one still gives
is the piece being read, which may be another token than in the whole source, and then no token any more
(`Scan.State.run_cutOff`). A statement is handed out only when a token has come after its semicolon. So the altered
token can hand one out but is never part of it, and the whole source has a token in the same place
(`Scan.State.exists_token_run`).
-/

namespace Octal

/-- The items that a reader's failure ends, with no token among them. -/
structure Item.Silent (cause : Error) (items : List Item) : Prop where
  failed : .failed cause ∈ items
  no_token : ∀ t, .token t ∉ items

/-! ### Scanning -/

namespace Scan

theorem Piece.lexeme?_of_extend {p q : Piece} {c : Char} (h : p.extend? c = some q) : ∃ l, q.lexeme? = some l := by
  cases p with
  | blank | stray | symbol => cases h
  | digits | word | sign | relation =>
    simp only [extend?, Option.ite_none_right_eq_some] at h
    cases h.2
    exact ⟨_, rfl⟩

namespace State
variable {s : State} {cause : Error} {items : List Item} {tail : List Rune}

theorem items_of_lexeme? {l : Lexeme} (h : s.piece.lexeme? = some l) : s.items .strict = [.token ⟨l, s.start⟩] := by
  rw [State.items, Piece.items, h]

theorem silent_items_append (h : s.piece.lexeme? = none) (hitems : Item.Silent cause items) :
    Item.Silent cause (s.items .strict ++ items) := by
  refine ⟨List.mem_append_right _ hitems.failed, fun t ht => ?_⟩
  rcases List.mem_append.1 ht with ht | ht
  · rw [Piece.lexeme?_of_mem_items ht] at h
    cases h
  · exact hitems.no_token t ht

theorem silent_failed (cause : Error) : Item.Silent cause [.failed cause] := ⟨by simp, by simp⟩

/-- Bytes that make no rune are stray, and end the piece before them. -/
theorem run_replacement {r : Rune} (hr : r.char = Rune.replacement) (ending : Ending) (s : State) (tail : List Rune) :
    s.run .strict ending (r :: tail) = s.items .strict ++ (s.restart r).run .strict ending tail ∧
      (s.restart r).piece.lexeme? = none := by
  constructor
  · exact run_of_end _ _ _ (by rw [hr, Piece.extend?_replacement])
  · show (Piece.begin _ r.char).lexeme? = none
    rw [hr, Piece.begin_replacement]
    rfl

theorem silent_run (htail : ∀ r ∈ tail, r.char = Rune.replacement) (h : s.piece.lexeme? = none) :
    Item.Silent cause (s.run .strict (.cutOff cause) tail) := by
  induction tail generalizing s with
  | nil =>
    rw [run, finish]
    split
    · exact silent_failed cause
    · exact silent_items_append h (silent_failed cause)
  | cons r tail ih =>
    obtain ⟨hr, htail⟩ := List.forall_mem_cons.1 htail
    obtain ⟨hrun, hstray⟩ := run_replacement hr (.cutOff cause) s tail
    rw [hrun]
    exact silent_items_append h (ih htail hstray)

/-- What is left of a source that is cut off, when at most bytes that make no rune are to come: the piece, if it is a
token and was not given up, and nothing else that is a token. -/
theorem run_cutOff (htail : ∀ r ∈ tail, r.char = Rune.replacement) (cause : Error) (s : State) :
    ∃ later, Item.Silent cause later ∧
      (s.run .strict (.cutOff cause) tail = later ∨
        ∃ l, s.piece.lexeme? = some l ∧ s.run .strict (.cutOff cause) tail = .token ⟨l, s.start⟩ :: later) := by
  cases hl : s.piece.lexeme? with
  | none => exact ⟨_, silent_run htail hl, .inl rfl⟩
  | some l =>
    cases tail with
    | nil =>
      refine ⟨[.failed cause], silent_failed cause, ?_⟩
      rw [run, finish]
      split
      · exact .inl rfl
      · exact .inr ⟨l, rfl, by rw [items_of_lexeme? hl]; rfl⟩
    | cons r tail =>
      obtain ⟨hr, htail⟩ := List.forall_mem_cons.1 htail
      obtain ⟨hrun, hstray⟩ := run_replacement hr (.cutOff cause) s tail
      refine ⟨_, silent_run htail hstray, .inr ⟨l, rfl, ?_⟩⟩
      rw [hrun, items_of_lexeme? hl]
      rfl

/-- A piece that is a token becomes one, whatever follows. -/
theorem exists_token_run {l : Lexeme} (h : s.piece.lexeme? = some l) (runes : List Rune) :
    ∃ t later, s.run .strict .complete runes = .token t :: later := by
  induction runes generalizing s l with
  | nil => exact ⟨_, _, by rw [run, finish, items_of_lexeme? h]; rfl⟩
  | cons r runes ih =>
    cases hq : s.piece.extend? r.char with
    | some q =>
      obtain ⟨l', hl'⟩ := Piece.lexeme?_of_extend hq
      rw [run_of_extend _ _ _ hq]
      exact ih hl'
    | none =>
      rw [run_of_end _ _ _ hq, items_of_lexeme? h]
      exact ⟨_, _, rfl⟩

end State

end Scan

/-! ### Parsing -/

theorem Lexing.admits_token (lexing : Lexing) (t : Token) : lexing.admits (.token t) = true := by cases lexing <;> rfl

theorem Item.Silent.filter {cause : Error} {items : List Item} (h : Silent cause items) (lexing : Lexing) :
    Silent cause (items.filter lexing.admits) := by
  refine ⟨List.mem_filter.2 ⟨h.failed, ?_⟩, fun t ht => h.no_token t (List.mem_filter.1 ht).1⟩
  cases lexing <;> rfl

namespace Parse.State
variable (s : State)

/-- Statements that were handed out stay. -/
theorem statements_prefix (items : List Item) :
    s.statements.reverse <+: (items.foldl feed s).program.statements := by
  have hs : s = (mk [] s.stage).onto s.statements := rfl
  rw [hs, run_onto, program_onto]
  exact List.prefix_append _ _

/-- It is the arrival of a token that hands out a statement, not what it is. -/
theorem statements_feed_token (t t' : Token) :
    (s.feed (.token t)).statements = (s.feed (.token t')).statements := by
  obtain ⟨statements, stage⟩ := s
  cases stage <;> rfl

theorem program_of_silent {cause : Error} {items : List Item} (h : Item.Silent cause items) :
    ∃ e, (items.foldl feed s).program = ⟨s.statements.reverse, some e⟩ := by
  cases items with
  | nil => cases h.failed
  | cons item items =>
    obtain ⟨e, he⟩ := exists_feed_failed (fun t ht => h.no_token t (ht ▸ List.mem_cons_self)) s
    rw [List.foldl_cons, he, run_failed]
    exact ⟨e, rfl⟩

end Parse.State

theorem Program.parse_of_items {src : Source} {items later : List Item} (h : src.items = items ++ later)
    (lexing : Lexing) : parse lexing src = ((later.filter lexing.admits).foldl Parse.State.feed
      ((items.filter lexing.admits).foldl Parse.State.feed .initial)).program := by
  rw [parse, Source.scan_eq_filter, h, List.filter_append, ofItems, List.foldl_append]

/-- The statements that a source gives before it is cut off are the first ones of the whole source. -/
theorem Program.parse_cutAt (lexing : Lexing) (n : Nat) (cause : Error) (text : Bytes) :
    ∃ e ss, parse lexing (.cutAt n cause text) = ⟨ss, some e⟩ ∧ ss <+: (parse lexing (.complete text)).statements := by
  obtain ⟨runes, tail, more, hcut, hall, htail⟩ :=
    Rune.decodeFrom_append_common (text.take n) (text.drop n) (Nat.zero_le _)
  rw [List.take_append_drop] at hall
  obtain ⟨items, s, -, hrun⟩ := Scan.State.initial.exists_run_append runes
  have hcut : (Source.cutAt n cause text).items = items ++ s.run .strict (.cutOff cause) tail := by
    rw [← hrun, ← hcut]
    rfl
  have hall : (Source.complete text).items = items ++ s.run .strict .complete more := by
    rw [← hrun, ← hall]
    rfl
  rw [parse_of_items hcut, parse_of_items hall]
  generalize (items.filter lexing.admits).foldl Parse.State.feed .initial = q
  obtain ⟨later, hsilent, h | ⟨l, hl, h⟩⟩ := Scan.State.run_cutOff htail cause s
  · obtain ⟨e, he⟩ := q.program_of_silent (hsilent.filter lexing)
    rw [h, he]
    exact ⟨e, _, rfl, q.statements_prefix _⟩
  · -- Both sources go on with a token, and it hands out the same statement if one is waiting.
    obtain ⟨t, later', h'⟩ := Scan.State.exists_token_run hl more
    obtain ⟨e, he⟩ := (q.feed (.token ⟨l, s.start⟩)).program_of_silent (hsilent.filter lexing)
    rw [h, h', List.filter_cons_of_pos (lexing.admits_token _), List.filter_cons_of_pos (lexing.admits_token _),
      List.foldl_cons, List.foldl_cons, he, q.statements_feed_token _ t]
    exact ⟨e, _, rfl, Parse.State.statements_prefix _ _⟩

/-! ### Execution -/

/-- The statements that are executed: all up to the first that fails, and that one. -/
def executed (settings : Settings) (registry : Registry) : List Statement → List Statement
  | [] => []
  | s :: rest =>
    match s.result settings registry with
    | .ok _ => s :: executed settings (s.register registry) rest
    | .error _ => [s]

section
variable {settings : Settings} {registry : Registry}

/-- Statements that are not executed could as well be missing. -/
theorem execute_executed (trace : Trace) (last : Value) (ss : List Statement) :
    execute settings registry trace last (executed settings registry ss) =
      execute settings registry trace last ss := by
  induction ss generalizing registry trace last with
  | nil => rfl
  | cons s ss ih =>
    have hvalue := s.yields_value settings registry trace
    rw [executed, execute]
    cases hrun : (s.value settings registry).run trace with
    | mk r trace' =>
      rw [hrun] at hvalue
      rw [← hvalue]
      cases r with
      | ok v => simp only [execute, hrun, ih]
      | error e => simp only [execute, hrun]

theorem register_of_error {s : Statement} {e : Error} (h : s.result settings registry = .error e) :
    s.register registry = registry := by
  cases s with
  | eval => rfl
  | define => cases h

/-- A failing statement defines nothing, so the functions are those that the executed statements define. -/
theorem perform_registry (last : Value) (ss : List Statement) :
    (perform settings registry last ss).2 = (executed settings registry ss).foldl Statement.register registry := by
  induction ss generalizing registry last with
  | nil => rfl
  | cons s ss ih =>
    rw [perform_cons, executed]
    cases hr : s.result settings registry with
    | ok v => exact ih v
    | error e => exact (register_of_error hr).symm

theorem executed_prefix {ss ss' : List Statement} (h : ss <+: ss') :
    executed settings registry ss <+: executed settings registry ss' := by
  obtain ⟨rest, rfl⟩ := h
  induction ss generalizing registry with
  | nil => exact List.nil_prefix
  | cons s ss ih =>
    rw [List.cons_append, executed, executed]
    cases s.result settings registry with
    | ok v => exact (List.prefix_cons_inj s).2 ih
    | error e => exact List.prefix_rfl

end

namespace Session
variable (s : Session)

/-- The statements of a source that are executed in evaluating it. -/
def executed (src : Source) : List Statement :=
  Octal.executed s.settings s.registry (Program.parse s.settings.lexing src).statements

theorem registry_outcome (src : Source) :
    (s.outcome src).registry = (s.executed src).foldl Statement.register s.registry := by
  rw [outcome, registry_run, perform_registry]
  rfl

theorem trace_outcome (src : Source) :
    (s.outcome src).trace = (execute s.settings s.registry [] 0 (s.executed src)).trace := by
  rw [executed, execute_executed, outcome, run]
  (repeat' split) <;> rfl

/-- A source that is cut off anywhere, be it in a word or in a character, fails. What was executed of it is what the
whole source begins with, and the whole source goes on from there, with the functions that were defined. -/
theorem outcome_cutAt (n : Nat) (cause : Error) (text : Bytes) :
    (∃ e, s.evaluate (.cutAt n cause text) = .error e) ∧
    (∃ more, s.executed (.complete text) = s.executed (.cutAt n cause text) ++ more ∧
      (s.outcome (.complete text)).registry =
        more.foldl Statement.register (s.outcome (.cutAt n cause text)).registry) ∧
    ∀ src, (s.outcome src).registry = (s.executed src).foldl Statement.register s.registry ∧
      (s.outcome src).trace = (execute s.settings s.registry [] 0 (s.executed src)).trace := by
  obtain ⟨e, ss, hcut, hprefix⟩ := Program.parse_cutAt s.settings.lexing n cause text
  refine ⟨?_, ?_, fun src => ⟨s.registry_outcome src, s.trace_outcome src⟩⟩
  · have hresult := s.result_run (p := ⟨ss, some e⟩) (by simp)
    rw [evaluate, outcome, hcut, hresult]
    cases (perform s.settings s.registry 0 ss).1 with
    | ok v => exact ⟨e, rfl⟩
    | error e' => exact ⟨e', rfl⟩
  · have hexecuted : s.executed (.cutAt n cause text) <+: s.executed (.complete text) := by
      rw [executed, executed, hcut]
      exact executed_prefix hprefix
    obtain ⟨more, hmore⟩ := hexecuted
    refine ⟨more, hmore.symm, ?_⟩
    rw [registry_outcome, registry_outcome, ← hmore, List.foldl_append]

/-- Cut off inside the `<=`, the text compares with `<`, but only the definition is executed. -/
example :
    (new .default).executed (.cutAt 20 (.outside "read failed") (Bytes.ofString "DEF f(n) = n; f(3) <= 3")) =
      [.define 0 ⟨"f", ["n"], .var 11 "n"⟩] := by
  cbv

end Session

end Octal
