import Octal.Scope
import Octal.Statement.Parse

/-!
# Causes of failure

What each part of the calculator can fail with. Arithmetic has three errors of its own, a numeral three,
and a lookup one. The parser adds only errors that point at a token (`Parse.Stage.failed_of_step`), which is the
current one or a parameter just before it. So a source that cannot be parsed has an item to blame
(`Program.exists_faulty`), and fails as a malformed text or at a numeral, unless its reader failed
(`Program.fault_cases`).
-/

namespace Octal

section
variable {α β ε : Type} {x : Except ε α} {k : α → Except ε β}

theorem bind_eq_ok {b : β} : x >>= k = .ok b ↔ ∃ a, x = .ok a ∧ k a = .ok b := by
  cases x <;> simp [bind, Except.bind]

theorem bind_eq_error {e : ε} : x >>= k = .error e ↔ x = .error e ∨ ∃ a, x = .ok a ∧ k a = .error e := by
  cases x <;> simp [bind, Except.bind]

end

/-! ### Evaluation -/

namespace Value
variable {a b result base : Value} {e : Error}

theorem error_of_neg (h : a.neg = .error e) : e = .overflow := by
  unfold neg at h
  split at h <;> cases h
  rfl

theorem error_of_mul (h : a.mul b = .error e) : e = .overflow := by
  simp only [mul] at h
  (repeat' split at h) <;> cases h <;> rfl

theorem error_of_powLoop {exp : Nat} (h : powLoop result base exp = .error e) : e = .overflow := by
  induction exp using Nat.strongRecOn generalizing result base with
  | ind exp ih =>
    rw [powLoop] at h
    split at h
    · cases h
    -- What is left when the lowest bit of the exponent has been taken into account.
    have rest {result : Value} (h : (if exp / 2 = 0 then pure result
        else do powLoop result (← mul base base) (exp / 2)) = .error e) : e = .overflow := by
      split at h
      · cases h
      · rcases bind_eq_error.1 h with h | ⟨square, -, h⟩
        · exact error_of_mul h
        · exact ih (exp / 2) (by omega) h
    by_cases hodd : exp % 2 = 1
    · rw [if_pos hodd] at h
      rcases bind_eq_error.1 h with h | ⟨product, -, h⟩
      · exact error_of_mul h
      · exact rest h
    · rw [if_neg hodd] at h
      exact rest h

end Value

/-- What can be wrong with an operation on two values. -/
def Error.IsArithmetic (e : Error) : Prop := e = .overflow ∨ e = .divisionByZero ∨ e = .negativeExponent

theorem Operator.isArithmetic_of_apply {op : Operator} {a b : Value} {e : Error} (h : op.apply a b = .error e) :
    e.IsArithmetic := by
  cases op with
  | add | sub =>
    simp only [apply, Value.add, Value.sub] at h
    split at h <;> cases h
    exact .inl rfl
  | mul => exact .inl (Value.error_of_mul h)
  | div =>
    simp only [apply, Value.floorDiv] at h
    split at h
    · cases h
      exact .inr (.inl rfl)
    · split at h <;> cases h
      exact .inl rfl
  | mod =>
    simp only [apply, Value.floorMod] at h
    split at h <;> cases h
    exact .inr (.inl rfl)
  | pow =>
    simp only [apply, Value.pow] at h
    split at h
    · cases h
      exact .inr (.inr rfl)
    · exact .inl (Value.error_of_powLoop h)
  | eq | ne | lt | gt | le | ge => cases h

theorem Scope.error_of_lookup {name : String} {scope : Scope} {e : Error} (h : scope.lookup name = .error e) :
    e = .unboundVariable name := by
  induction scope with
  | nil =>
    cases h
    rfl
  | cons frame outer ih =>
    rw [lookup] at h
    split at h
    · cases h
    · exact ih h

/-! ### Parsing -/

/-- What can be wrong with a numeral. -/
def Error.IsNumeral (e : Error) : Prop :=
  e = .malformed none .emptyNumeral ∨ (∃ c, e = .badDigit c) ∨ e = .overflow

namespace Numeral
variable {e : Error}

theorem error_of_magnitude {digits : List Char} {n : UInt64} (h : digits.foldlM pushDigit n = .error e) :
    e = .overflow := by
  induction digits generalizing n with
  | nil => cases h
  | cons c digits ih =>
    rw [List.foldlM_cons] at h
    rcases bind_eq_error.1 h with h | ⟨n', -, h⟩
    · rw [pushDigit] at h
      split at h <;> cases h
      rfl
    · exact ih h

theorem error_of_signed {negative : Bool} {n : UInt64} (h : signed negative n = .error e) : e = .overflow := by
  unfold signed at h
  (repeat' split at h) <;> cases h <;> rfl

theorem isNumeral_of_decode {text : List Char} (h : decode text = .error e) : e.IsNumeral := by
  have digits {negative : Bool} {digits : List Char} (h : decodeDigits negative digits = .error e) :
      e.IsNumeral := by
    unfold decodeDigits at h
    split at h
    · cases h
      exact .inl rfl
    split at h
    · cases h
      exact .inr (.inl ⟨_, rfl⟩)
    · rcases bind_eq_error.1 h with h | ⟨n, -, h⟩
      · exact .inr (.inr (error_of_magnitude h))
      · exact .inr (.inr (error_of_signed h))
  unfold decode at h
  split at h <;> exact digits h

end Numeral

/-- The problem is with a token that is the lexeme. -/
def Problem.About : Problem → Lexeme → Prop
  | unexpected got, l | expected _ got, l | trailing got, l | bodyContinues got, l => l = got
  | duplicateParameter name, l => l = ⟨.ident, name⟩
  | unknownComparison text, l => l.text = text
  | misplacedDefinition, l => l.kind = .kwDef
  | endOfExpression, l => l.kind = .eof
  | strayCharacter _, _ | emptyNumeral, _ | unknownOperator, _ | described _, _ => False

namespace Parse

/-- What can be wrong with the token `t`: it stands in the wrong place, or is a numeral without a value. -/
def Blames (t : Token) (cause : Error) : Prop :=
  (∃ p, cause = .malformed (some t.pos) p ∧ p.About t.toLexeme) ∨
    t.kind = .number ∧ Numeral.decode t.text.toList = .error cause

section
variable {t : Token} {cause : Error} {stack : List Frame} {e : Expr}

theorem blames_of_fail {p : Problem} (h : fail t p = .failed cause) (hp : p.About t.toLexeme) : Blames t cause := by
  cases h
  exact .inl ⟨p, rfl, hp⟩

theorem blames_of_expect {kind : Kind} {next : Stage} (hn : next ≠ .failed cause)
    (h : expect kind t next = .failed cause) : Blames t cause := by
  rw [expect] at h
  split at h
  · exact absurd h hn
  · exact blames_of_fail h rfl

theorem blames_of_operandAt (h : operandAt stack t = .failed cause) : Blames t cause := by
  unfold operandAt at h
  split at h
  · cases h
  · next hk =>
    split at h
    · cases h
    · next hd =>
      cases h
      exact .inr ⟨hk, hd⟩
  · cases h
  · cases h
  · next hk => exact blames_of_fail h hk
  · next hk => exact blames_of_fail h hk
  · exact blames_of_fail h rfl

theorem blames_of_expressionAt (h : expressionAt stack t = .failed cause) : Blames t cause := by
  unfold expressionAt at h
  split at h
  · cases h
  · cases h
  · next hk => exact blames_of_fail h hk
  · exact blames_of_operandAt h

theorem blames_of_statementAt (h : statementAt t = .failed cause) : Blames t cause := by
  unfold statementAt at h
  split at h
  · cases h
  · cases h
  · exact blames_of_expressionAt h

theorem blames_of_endStatement {s : Statement} {problem : Lexeme → Problem}
    (h : endStatement s t problem = .failed cause) (hp : ∀ l, (problem l).About l) : Blames t cause := by
  unfold endStatement at h
  split at h
  · cases h
  · cases h
  · exact blames_of_fail h (hp _)

theorem blames_of_delimit (h : delimit e t stack = .failed cause) : Blames t cause := by
  cases stack with
  | nil => exact blames_of_endStatement h fun _ => rfl
  | cons f stack =>
    cases f with
    | paren | condTest | condTrue | bindValue => exact blames_of_expect (by simp) h
    | callArg =>
      rw [delimit] at h
      split at h
      · cases h
      · exact blames_of_expect (by simp) h
    | body | condFalse | bindBody | neg | right => exact blames_of_endStatement h fun _ => rfl

theorem blames_of_operatorAt (h : operatorAt e stack t = .failed cause) : Blames t cause := by
  unfold operatorAt at h
  split at h
  · simp only at h
    split at h
    · exact blames_of_delimit h
    · cases h
  · split at h
    · exact blames_of_fail h rfl
    · exact blames_of_delimit h

/-- A step that fails has a token to blame: the one it takes, or a parameter that repeats an earlier one
and was read just before. -/
theorem Stage.failed_of_step {stage : Stage} (h : stage.step t = .failed cause) :
    stage = .failed cause ∨ Blames t cause ∨
      ∃ pos name params param paramPos, stage = .defComma pos name params param paramPos ∧
        cause = .malformed (some paramPos) (.duplicateParameter param) := by
  cases stage with
  | start | separated => exact .inr (.inl (blames_of_statementAt h))
  | expression => exact .inr (.inl (blames_of_expressionAt h))
  | operand => exact .inr (.inl (blames_of_operandAt h))
  | operator => exact .inr (.inl (blames_of_operatorAt h))
  | ident =>
    rw [step] at h
    split at h
    · cases h
    · exact .inr (.inl (blames_of_operatorAt h))
  | arguments =>
    rw [step] at h
    split at h
    · cases h
    · exact .inr (.inl (blames_of_expressionAt h))
  | bindName | bindAssign | defName | defOpen | defParam | defAssign =>
    exact .inr (.inl (blames_of_expect (by simp) h))
  | defParams =>
    rw [step] at h
    split at h
    · cases h
    · exact .inr (.inl (blames_of_expect (by simp) h))
  | defComma pos name params param paramPos =>
    rw [step] at h
    split at h
    · cases h
      exact .inr (.inr ⟨_, _, _, _, _, rfl, rfl⟩)
    split at h
    · cases h
    · exact .inr (.inl (blames_of_expect (by simp) h))
  | ended => cases h
  | failed => exact .inl h

/-! ### What the parser remembers of positions -/

/-- A parameter that has just been read stands where one of the tokens in `seen` does. -/
def Stage.Recalls (seen : List Item) : Stage → Prop
  | .defComma _ _ _ param paramPos => ∃ t, .token t ∈ seen ∧ t.pos = paramPos ∧ t.toLexeme = ⟨.ident, param⟩
  | _ => True

variable {seen : List Item}

theorem recalls_expect {kind : Kind} {next : Stage} (h : t.kind = kind → next.Recalls seen) :
    (expect kind t next).Recalls seen := by
  unfold expect
  split
  · next hk => exact h hk
  · trivial

theorem recalls_operandAt : (operandAt stack t).Recalls seen := by
  unfold operandAt
  (repeat' split) <;> trivial

theorem recalls_expressionAt : (expressionAt stack t).Recalls seen := by
  unfold expressionAt
  split
  · trivial
  · trivial
  · trivial
  · exact recalls_operandAt

theorem recalls_statementAt : (statementAt t).Recalls seen := by
  unfold statementAt
  split
  · trivial
  · trivial
  · exact recalls_expressionAt

theorem recalls_endStatement {s : Statement} {problem : Lexeme → Problem} :
    (endStatement s t problem).Recalls seen := by
  unfold endStatement
  split <;> trivial

theorem recalls_delimit : (delimit e t stack).Recalls seen := by
  cases stack with
  | nil => exact recalls_endStatement
  | cons f stack =>
    cases f with
    | paren | condTest | condTrue | bindValue => exact recalls_expect fun _ => trivial
    | callArg =>
      rw [delimit]
      split
      · trivial
      · exact recalls_expect fun _ => trivial
    | body | condFalse | bindBody | neg | right => exact recalls_endStatement

theorem recalls_operatorAt : (operatorAt e stack t).Recalls seen := by
  unfold operatorAt
  split
  · simp only
    split
    · exact recalls_delimit
    · trivial
  · split
    · trivial
    · exact recalls_delimit

theorem Stage.recalls_step (ht : .token t ∈ seen) (stage : Stage) : (stage.step t).Recalls seen := by
  cases stage with
  | start | separated => exact recalls_statementAt
  | expression => exact recalls_expressionAt
  | operand => exact recalls_operandAt
  | operator => exact recalls_operatorAt
  | ident =>
    rw [step]
    split
    · trivial
    · exact recalls_operatorAt
  | arguments =>
    rw [step]
    split
    · trivial
    · exact recalls_expressionAt
  | bindName | bindAssign | defName | defOpen | defAssign => exact recalls_expect fun _ => trivial
  | defParams =>
    rw [step]
    split
    · next hk => exact ⟨t, ht, rfl, congrArg (Lexeme.mk · t.text) hk⟩
    · exact recalls_expect fun _ => trivial
  | defParam => exact recalls_expect fun hk => ⟨t, ht, rfl, congrArg (Lexeme.mk · t.text) hk⟩
  | defComma =>
    rw [step]
    split
    · trivial
    split
    · trivial
    · exact recalls_expect fun _ => trivial
  | ended | failed => trivial

end

end Parse

/-- What is wrong with the item is `cause`. -/
def Item.Faulty (cause : Error) : Item → Prop
  | .token t => Parse.Blames t cause
  | .stray pos c => cause = .malformed (some pos) (.strayCharacter c)
  | .failed cause' => cause = cause'

namespace Parse.State

theorem receive_token (stage : Stage) (t : Token) : receive stage (.token t) = stage.step t := by
  cases stage <;> rfl

theorem stage_feed (s : State) (item : Item) : (s.feed item).stage = receive s.stage item := by
  unfold feed
  split <;> rfl

theorem recalls_receive {seen : List Item} {item : Item} (h : item ∈ seen) (stage : Stage) :
    (receive stage item).Recalls seen := by
  cases item with
  | token t =>
    rw [receive_token]
    exact Stage.recalls_step h stage
  | stray | failed => cases stage <;> trivial

theorem exists_faulty_of_receive {seen : List Item} {stage : Stage} {item : Item} {cause : Error}
    (hs : stage.Recalls seen) (h : receive stage item = .failed cause) :
    stage = .failed cause ∨ ∃ i ∈ seen ++ [item], i.Faulty cause := by
  have hitem : item ∈ seen ++ [item] := List.mem_append_right _ List.mem_cons_self
  cases item with
  | token t =>
    rw [receive_token] at h
    rcases Stage.failed_of_step h with h | h | ⟨_, _, _, _, _, rfl, rfl⟩
    · exact .inl h
    · exact .inr ⟨_, hitem, h⟩
    · obtain ⟨t', ht', rfl, hlexeme⟩ := hs
      exact .inr ⟨_, List.mem_append_left _ ht', .inl ⟨_, rfl, hlexeme⟩⟩
  | stray pos c =>
    cases stage with
    | failed => exact .inl h
    | _ =>
      cases h
      exact .inr ⟨_, hitem, rfl⟩
  | failed cause' =>
    cases stage with
    | failed => exact .inl h
    | _ =>
      cases h
      exact .inr ⟨_, hitem, rfl⟩

theorem exists_faulty_of_run {seen : List Item} {s : State} {items : List Item} {cause : Error}
    (hs : s.stage.Recalls seen) (h : (items.foldl feed s).stage = .failed cause) :
    s.stage = .failed cause ∨ ∃ item ∈ seen ++ items, item.Faulty cause := by
  induction items generalizing seen s with
  | nil => exact .inl h
  | cons item items ih =>
    have hnext : (s.feed item).stage.Recalls (seen ++ [item]) := by
      rw [stage_feed]
      exact recalls_receive (List.mem_append_right _ List.mem_cons_self) s.stage
    rw [List.append_cons]
    rcases ih hnext h with h | h
    · rw [stage_feed] at h
      rcases exists_faulty_of_receive hs h with h | ⟨i, hi, hfaulty⟩
      · exact .inl h
      · exact .inr ⟨i, List.mem_append_left _ hi, hfaulty⟩
    · exact .inr h

theorem stage_of_fault {s : State} {cause : Error} (h : s.program.fault = some cause) : s.stage = .failed cause := by
  unfold program at h
  split at h <;> cases h
  assumption

end Parse.State

/-- A parse that fails has an item to blame. -/
theorem Program.exists_faulty {items : List Item} {cause : Error} (h : (Program.ofItems items).fault = some cause) :
    ∃ item ∈ items, item.Faulty cause := by
  have hstage : (items.foldl Parse.State.feed .initial).stage = .failed cause := Parse.State.stage_of_fault h
  have hstart : Parse.State.initial.stage.Recalls [] := trivial
  rcases Parse.State.exists_faulty_of_run hstart hstage with h | h
  · cases h
  · exact h

/-- What can be wrong with a text. -/
def Error.IsSyntactic (e : Error) : Prop := (∃ pos p, e = .malformed (some pos) p) ∨ e.IsNumeral

theorem Program.fault_cases {items : List Item} {cause : Error} (h : (Program.ofItems items).fault = some cause) :
    .failed cause ∈ items ∨ cause.IsSyntactic := by
  obtain ⟨item, hitem, hfaulty⟩ := exists_faulty h
  cases item with
  | token t =>
    rcases hfaulty with ⟨p, h, -⟩ | ⟨-, h⟩
    · exact .inr (.inl ⟨_, p, h⟩)
    · exact .inr (.inr (Numeral.isNumeral_of_decode h))
  | stray pos c => exact .inr (.inl ⟨pos, _, hfaulty⟩)
  | failed cause' =>
    obtain rfl : cause = cause' := hfaulty
    exact .inl hitem

end Octal
