import Mathlib
import Octal.Proofs.Evaluation
import Octal.Proofs.Sequence
import Octal.Session

/-!
# Sessions

A source of several statements does what its statements do one after the other, so evaluating `a;b` is
evaluating `a` and then `b`. This needs a token after the semicolon. If the text goes on with something
else, not even a definition before the semicolon takes effect.
-/

namespace Octal

theorem mapError_map {α β ε ε' : Type} (f : ε → ε') (g : α → β) (x : Except ε α) :
    (x.mapError f).map g = (x.map g).mapError f := by
  cases x <;> rfl

theorem eq_ok_of_mapError {α ε ε' : Type} {f : ε → ε'} {x : Except ε α} {a : α} (h : x.mapError f = .ok a) :
    x = .ok a := by
  cases x with
  | ok b => exact congrArg _ (Except.ok.inj h)
  | error e => cases h

/-- What a run results in, that results in `r` before it meets `fault`. -/
def faulted (fault : Option Error) (r : Except Error Value) : Except Error Value :=
  match r, fault with
  | .ok _, some cause => .error cause
  | r, _ => r

theorem faulted_eq_ok {fault : Option Error} {r : Except Error Value} {v : Value} :
    faulted fault r = .ok v ↔ fault = none ∧ r = .ok v := by
  cases r <;> cases fault <;> simp [faulted]

theorem error_of_faulted {fault : Option Error} {r : Except Error Value} {e : Error}
    (h : faulted fault r = .error e) : r = .error e ∨ fault = some e := by
  cases r with
  | error cause => exact .inl h
  | ok v =>
    cases fault with
    | none => cases h
    | some cause =>
      cases h
      exact .inr rfl

theorem faulted_mapPos {r : Except Error Value} (h : Unplaced r) (f : Nat → Nat) (fault : Option Error) :
    faulted (fault.map (Error.mapPos f)) r = (faulted fault r).mapError (Error.mapPos f) := by
  cases r with
  | ok v => cases fault <;> rfl
  | error e =>
    show Except.error e = .error (e.mapPos f)
    rw [Error.mapPos_of_position_eq_none f (h e rfl)]

/-- The value before a program does not show, unless the program is empty. -/
theorem faulted_perform {settings : Settings} {registry : Registry} {p : Program}
    (h : p.statements = [] → p.fault ≠ none) (last last' : Value) :
    faulted p.fault (perform settings registry last p.statements).1 =
      faulted p.fault (perform settings registry last' p.statements).1 := by
  by_cases hs : p.statements = []
  · obtain ⟨cause, hc⟩ := Option.ne_none_iff_exists'.1 (h hs)
    rw [hs, hc]
    rfl
  · rw [perform_of_ne_nil hs last']

/-- The error that ends a program none of whose statements fails. One without statements has no value. -/
def Program.ending (p : Program) : Option Error :=
  match p.statements, p.fault with
  | [], none => some (.malformed (some 0) .endOfExpression)
  | _, fault => fault

theorem Program.ending_eq {p : Program} (h : p.statements = [] → p.fault ≠ none) : p.ending = p.fault := by
  unfold ending
  split
  · next hs hf => exact absurd hf (h hs)
  · rfl

/-- What is wrong with a source has nothing to do with calls, unless its reader says so. -/
theorem Program.ending_of_depthExceeded {lexing : Lexing} {src : Source} {limit : Int}
    (h : (Program.parse lexing src).ending = some (.depthExceeded limit)) :
    src.ending = .cutOff (.depthExceeded limit) := by
  unfold ending at h
  split at h
  · cases h
  rcases Program.fault_cases h with h | ⟨pos, p, h⟩ | h | ⟨c, h⟩ | h
  · exact Scan.State.ending_of_failed_mem_run (Source.mem_items_of_mem_scan h)
  all_goals cases h

namespace Session
variable (s : Session)

theorem registry_run (p : Program) :
    (s.run p).registry = (perform s.settings s.registry 0 p.statements).2 := by
  rw [← execute_eq s.settings s.registry [] 0 p.statements, run]
  (repeat' split) <;> rfl

theorem result_run_eq (p : Program) :
    (s.run p).result = faulted p.ending (perform s.settings s.registry 0 p.statements).1 := by
  rw [← execute_eq s.settings s.registry [] 0 p.statements, run]
  generalize execute s.settings s.registry [] 0 p.statements = outcome
  obtain ⟨r, registry, trace⟩ := outcome
  obtain ⟨statements, fault⟩ := p
  cases r with
  | error e => rfl
  | ok v => cases fault <;> cases statements <;> rfl

theorem result_run {p : Program} (h : p.statements = [] → p.fault ≠ none) :
    (s.run p).result = faulted p.fault (perform s.settings s.registry 0 p.statements).1 := by
  rw [s.result_run_eq, Program.ending_eq h]

/-- A source that evaluates has been parsed to its end, and has a statement. -/
theorem exists_of_evaluate_eq_ok {s : Session} {src : Source} {v : String} (h : s.evaluate src = .ok v) :
    ∃ trees w, trees ≠ [] ∧ Program.parse s.settings.lexing src = ⟨trees, none⟩ ∧
      perform s.settings s.registry 0 trees = (.ok w, (s.after src).registry) ∧ Numeral.encode w = v := by
  have hreg : (s.after src).registry = _ := s.registry_run (.parse s.settings.lexing src)
  rw [evaluate, outcome] at h
  rw [hreg]
  generalize Program.parse s.settings.lexing src = p at h
  obtain ⟨trees, fault⟩ := p
  by_cases hp : trees = [] ∧ fault = none
  · obtain ⟨rfl, rfl⟩ := hp
    cases h
  · rw [s.result_run fun hs hf => hp ⟨hs, hf⟩] at h
    simp only at h ⊢
    refine ⟨trees, ?_⟩
    cases hr : perform s.settings s.registry 0 trees with
    | mk r registry =>
      rw [hr] at h
      cases r with
      | error e => cases fault <;> cases h
      | ok w =>
        cases fault with
        | some cause => cases h
        | none =>
          cases h
          exact ⟨w, fun hs => hp ⟨hs, rfl⟩, rfl, rfl, rfl⟩

/-- A program further on in a source, with a value before it, does what it does on its own. -/
theorem perform_moved {p : Program} (h : p.statements = [] → p.fault ≠ none) (f : Nat → Nat) (last : Value) :
    faulted (p.mapPos f).fault (perform s.settings s.registry last (p.mapPos f).statements).1 =
        (s.run p).result.mapError (Error.mapPos f) ∧
      (perform s.settings s.registry last (p.mapPos f).statements).2.map Function.erase =
        (s.run p).registry.map Function.erase := by
  obtain ⟨hresult, hregistry⟩ := perform_erase f s.settings s.registry last p.statements
  have hplace := unplaced_perform s.settings s.registry last p.statements
  constructor
  · rw [s.result_run h, faulted_perform h 0 last, ← faulted_mapPos hplace, ← hresult]
    rfl
  · rw [s.registry_run, perform_snd 0 last, ← hregistry]
    rfl

section
variable {s} {a b : Bytes} {trees : List Statement} {w : Value} {registry : Registry} {t : Token}
  {rest : List Item}

theorem outcome_sequence (hparse : Program.parse s.settings.lexing (.complete a) = ⟨trees, none⟩)
    (hne : trees ≠ []) (hl : (Source.complete a).isTerminated s.settings.lexing = false)
    (hrun : perform s.settings s.registry 0 trees = (.ok w, registry))
    (hb : (Source.complete b).scan s.settings.lexing = .token t :: rest) {p : Program}
    (hp : p = (Program.parse s.settings.lexing (.complete b)).mapPos (· + (a.length + 1))) :
    (s.outcome (.complete (a ++ Bytes.ofString ";" ++ b))).result =
        faulted p.fault (perform s.settings registry w p.statements).1 ∧
      (s.outcome (.complete (a ++ Bytes.ofString ";" ++ b))).registry =
        (perform s.settings registry w p.statements).2 := by
  have happend : perform s.settings s.registry 0 (trees ++ p.statements) =
      perform s.settings registry w p.statements := by
    rw [perform_append, hrun]
  rw [outcome, Program.parse_sequence hparse hne hl hb, ← hp, ← happend]
  exact ⟨s.result_run fun h => absurd (List.append_eq_nil_iff.1 h).1 hne, s.registry_run _⟩

end

/-- Evaluating `a;b` is evaluating `a` and then `b`, when `a` evaluates and does not end in a semicolon of
its own, and a token is the next thing after the semicolon. -/
theorem evaluate_sequence {s : Session} {a : Bytes} {v : String} (ha : s.evaluate (.complete a) = .ok v)
    (hl : (Source.complete a).isTerminated s.settings.lexing = false) (b : Bytes) :
    (∀ t rest, (Source.complete b).scan s.settings.lexing = .token t :: rest → t.kind ≠ .eof →
      s.evaluate (.complete (a ++ Bytes.ofString ";" ++ b)) =
          ((s.after (.complete a)).evaluate (.complete b)).mapError (Error.mapPos (· + (a.length + 1))) ∧
        (s.after (.complete (a ++ Bytes.ofString ";" ++ b))).registry.map Function.erase =
          ((s.after (.complete a)).after (.complete b)).registry.map Function.erase) ∧
    ∀ eof, (Source.complete b).scan s.settings.lexing = [.token eof] →
      s.evaluate (.complete (a ++ Bytes.ofString ";" ++ b)) = .ok v ∧
        s.after (.complete (a ++ Bytes.ofString ";" ++ b)) = s.after (.complete a) := by
  obtain ⟨trees, w, hne, hparse, hrun, rfl⟩ := exists_of_evaluate_eq_ok ha
  refine ⟨fun t rest hb hk => ?_, fun eof hb => ?_⟩
  · obtain ⟨hresult, hregistry⟩ := outcome_sequence hparse hne hl hrun hb rfl
    have hp : (Program.parse s.settings.lexing (.complete b)).statements = [] →
        (Program.parse s.settings.lexing (.complete b)).fault ≠ none := fun hs hf =>
      hk (Program.kind_eq_eof_of_parse (congr (congrArg Program.mk hs) hf) hb)
    obtain ⟨hresult', hregistry'⟩ := (s.after (.complete a)).perform_moved hp (· + (a.length + 1)) w
    constructor
    · rw [evaluate, evaluate, ← mapError_map, hresult]
      exact congrArg _ hresult'
    · exact (congrArg _ hregistry).trans hregistry'
  · obtain ⟨hresult, hregistry⟩ := outcome_sequence hparse hne hl hrun hb rfl
    obtain ⟨init, pos, hs, -⟩ := (Source.complete b).scan_eq s.settings.lexing
    obtain ⟨-, heof⟩ := List.append_inj' ((List.nil_append _).trans (hb.symm.trans hs)) rfl
    have hparse : Program.parse s.settings.lexing (.complete b) = ⟨[], none⟩ := by
      rw [Program.parse, hb, heof]
      rfl
    rw [hparse] at hresult hregistry
    constructor
    · rw [evaluate, hresult]
      rfl
    · rw [after, hregistry]
      rfl

/-- The surplus parenthesis is at offset 4 after the semicolon at 12. -/
theorem evaluate_definition_then_surplus_paren :
    (Session.new .default).evaluate (.complete (Bytes.ofString "DEF f(n)=n*n")) = .ok "0" ∧
    (Source.complete (Bytes.ofString "DEF f(n)=n*n")).isTerminated .strict = false ∧
    (Session.new .default).evaluate
        (.complete (Bytes.ofString "DEF f(n)=n*n" ++ Bytes.ofString ";" ++ Bytes.ofString "f(5))")) =
      .error (.malformed (some 17) (.trailing ⟨.closeParen, ")"⟩)) := by
  have ha : (Session.new .default).evaluate (.complete (Bytes.ofString "DEF f(n)=n*n")) = .ok "0" := by cbv
  have hl : (Source.complete (Bytes.ofString "DEF f(n)=n*n")).isTerminated .strict = false := by decide
  have hb : (Source.complete (Bytes.ofString "f(5))")).scan .strict = .token ⟨⟨.ident, "f"⟩, 0⟩ ::
      [.token ⟨⟨.openParen, "("⟩, 1⟩, .token ⟨⟨.number, "5"⟩, 2⟩, .token ⟨⟨.closeParen, ")"⟩, 3⟩,
        .token ⟨⟨.closeParen, ")"⟩, 4⟩, .token ⟨⟨.eof, ""⟩, 5⟩] := by decide
  have hafter : ((Session.new .default).after (.complete (Bytes.ofString "DEF f(n)=n*n"))).evaluate
      (.complete (Bytes.ofString "f(5))")) = .error (.malformed (some 4) (.trailing ⟨.closeParen, ")"⟩)) := by
    cbv
  refine ⟨ha, hl, ?_⟩
  rw [((evaluate_sequence ha hl _).1 _ _ hb (by decide)).1, hafter]
  rfl

/-- A definition takes effect when any token comes after its semicolon, whatever else follows. In a lenient
session, where all that is no token is dropped, one always does: the end of the input if no other. -/
theorem mem_functions_after_definition {s : Session} {d : Bytes} {pos : Nat} {fn : Function}
    (hd : Program.parse s.settings.lexing (.complete d) = ⟨[.define pos fn], none⟩)
    (hl : (Source.complete d).isTerminated s.settings.lexing = false) (b : Bytes) :
    (fn.name ∈ (s.after (.complete (d ++ Bytes.ofString ";" ++ b))).functions ↔
      fn.name ∈ s.functions ∨ ∃ t rest, (Source.complete b).scan s.settings.lexing = .token t :: rest) ∧
    (s.settings.lexing = .lenient →
      fn.name ∈ (s.after (.complete (d ++ Bytes.ofString ";" ++ b))).functions) := by
  have registered {t : Token} {rest : List Item}
      (hb : (Source.complete b).scan s.settings.lexing = .token t :: rest) :
      fn.name ∈ (s.after (.complete (d ++ Bytes.ofString ";" ++ b))).functions := by
    have hrun : perform s.settings s.registry 0 [.define pos fn] = (.ok 0, s.registry.set fn) := rfl
    obtain ⟨-, hregistry⟩ := outcome_sequence hd (by simp) hl hrun hb rfl
    rw [functions, after, hregistry]
    exact mem_names_perform (Registry.mem_names_set.2 (.inl rfl))
  refine ⟨⟨fun h => ?_, ?_⟩, fun hlenient => ?_⟩
  · by_cases hb : ∃ t rest, (Source.complete b).scan s.settings.lexing = .token t :: rest
    · exact .inr hb
    · obtain ⟨cause, hc⟩ := Program.parse_sequence_of_stray hd (by simp) hl (b := b)
        fun t rest h => hb ⟨t, rest, h⟩
      rw [functions, after, outcome, hc, registry_run] at h
      exact .inl h
  · rintro (h | ⟨t, rest, hb⟩)
    · rw [functions, after, outcome, registry_run]
      exact mem_names_perform h
    · exact registered hb
  · obtain ⟨t, rest, hb⟩ := Source.exists_token_of_lenient b
    exact registered (hlenient ▸ hb)

theorem mem_functions_after_definition_then_unclosed_call :
    Program.parse .strict (.complete (Bytes.ofString "DEF g() = 2")) =
      ⟨[.define 0 ⟨"g", [], .num 10 2⟩], none⟩ ∧
    (Source.complete (Bytes.ofString "DEF g() = 2")).isTerminated .strict = false ∧
    "g" ∈ ((Session.new .default).after
      (.complete (Bytes.ofString "DEF g() = 2" ++ Bytes.ofString ";" ++ Bytes.ofString " g("))).functions := by
  have hd : Program.parse .strict (.complete (Bytes.ofString "DEF g() = 2")) =
      ⟨[.define 0 ⟨"g", [], .num 10 2⟩], none⟩ := by cbv
  have hl : (Source.complete (Bytes.ofString "DEF g() = 2")).isTerminated .strict = false := by decide
  have hb : (Source.complete (Bytes.ofString " g(")).scan .strict = .token ⟨⟨.ident, "g"⟩, 1⟩ ::
      [.token ⟨⟨.openParen, "("⟩, 2⟩, .token ⟨⟨.eof, ""⟩, 3⟩] := by decide
  exact ⟨hd, hl, (mem_functions_after_definition (s := .new .default) hd hl _).1.2 (.inr ⟨_, _, hb⟩)⟩

/-- The statement is complete and its semicolon is there, but the character after that is no token. -/
theorem functions_after_definition_then_stray :
    Program.parse .strict (.complete (Bytes.ofString "DEF f() = 1")) =
      ⟨[.define 0 ⟨"f", [], .num 10 1⟩], none⟩ ∧
    (Source.complete (Bytes.ofString "DEF f() = 1")).isTerminated .strict = false ∧
    ((Session.new .default).after
      (.complete (Bytes.ofString "DEF f() = 1" ++ Bytes.ofString ";" ++ Bytes.ofString "$"))).functions =
        [] := by
  refine ⟨?_, ?_, ?_⟩ <;> cbv

end Session

end Octal
