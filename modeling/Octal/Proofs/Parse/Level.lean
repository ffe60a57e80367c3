import Octal.Proofs.Grammar

/-!
# Levels of open constructs

The parser compares ranks of operators where the grammar has levels. `Frame.hole` is the level of
the phrase a frame waits for and `Frame.result` the level of what it then is; a frame may stand on a
stack whose hole takes its result. In these terms an operator takes its left operand from the
frames that are at most of its left level (`Frame.bindsBefore_of_result_le`), and what it makes of them
fits the frame where it stops (`Frame.level_le_hole_iff`).
-/

namespace Octal

namespace Grammar.Level

/-- The place of a level, counted from the tightest. -/
def height : Level → Nat
  | primary => 0
  | unary => 1
  | power => 2
  | product => 3
  | sum => 4
  | comparison => 5
  | expression => 6

instance : LE Level := ⟨fun l l' => l.height ≤ l'.height⟩

instance (l l' : Level) : Decidable (l ≤ l') := inferInstanceAs (Decidable (l.height ≤ l'.height))

theorem le_trans {l m n : Level} (h : l ≤ m) (h' : m ≤ n) : l ≤ n := Nat.le_trans h h'

theorem le_expression (l : Level) : l ≤ expression := by cases l <;> decide

/-- The next level. -/
def up : Level → Level
  | primary => unary
  | unary => power
  | power => product
  | product => sum
  | sum => comparison
  | comparison => expression
  | expression => expression

/-- What passes from a level to the next holds from there on. -/
theorem le_induction {P : Level → Prop} {l l' : Level} (h : l ≤ l') (h0 : P l)
    (hs : ∀ m, P m → P m.up) : P l' := by
  have h1 := hs _ h0
  have h2 := hs _ h1
  have h3 := hs _ h2
  have h4 := hs _ h3
  have h5 := hs _ h4
  have h6 := hs _ h5
  cases l <;> cases l' <;>
    first
    | exact h0 | exact h1 | exact h2 | exact h3 | exact h4 | exact h5 | exact h6
    | exact absurd h (by decide)

end Grammar.Level

open Grammar

namespace Operator

/-- The level of an operation. -/
def level : Operator → Level
  | pow => .power
  | mul | div | mod => .product
  | add | sub => .sum
  | eq | ne | lt | gt | le | ge => .comparison

def leftLevel : Operator → Level
  | pow => .unary
  | mul | div | mod => .product
  | add | sub | eq | ne | lt | gt | le | ge => .sum

def rightLevel : Operator → Level
  | pow | mul | div | mod => .power
  | add | sub => .product
  | eq | ne | lt | gt | le | ge => .sum

/-- The kind of the token that stands for an operator. -/
def kind : Operator → Kind
  | add => .plus
  | sub => .minus
  | mul => .times
  | div => .divide
  | mod => .modulo
  | pow => .power
  | eq | ne | lt | gt | le | ge => .compare

/-- An operator takes what is at most of its left level before it reads on. -/
theorem bindsBefore_iff (op op' : Operator) :
    op.bindsBefore op' = true ↔ op.level ≤ op'.leftLevel := by
  cases op <;> cases op' <;> decide

/-- Where it does not, and would not chain comparisons, it makes a right operand itself. -/
theorem level_le_rightLevel_iff (op op' : Operator) :
    op'.level ≤ op.rightLevel ↔
      op.bindsBefore op' = false ∧ (op'.isComparison && op.isComparison) = false := by
  cases op <;> cases op' <;> decide

theorem unary_le_leftLevel (op : Operator) : Level.unary ≤ op.leftLevel := by cases op <;> decide

theorem unary_le_rightLevel (op : Operator) : Level.unary ≤ op.rightLevel := by cases op <;> decide

theorem level_le_expression (op : Operator) : op.level ≤ .expression := op.level.le_expression

theorem not_expression_le_leftLevel (op : Operator) : ¬ Level.expression ≤ op.leftLevel := by
  cases op <;> decide

theorem not_level_le_unary (op : Operator) : ¬ op.level ≤ .unary := by cases op <;> decide

theorem kind_of_comparison? {s : String} {op : Operator} (h : comparison? s = some op) :
    op.kind = .compare := by
  have hm : op ∈ comparisons := List.mem_of_find?_eq_some h
  revert hm
  cases op <;> decide

end Operator

namespace Token
variable {t : Token} {op : Operator}

theorem kind_of_operator? (h : t.operator? = some op) : t.kind = op.kind := by
  unfold operator? at h
  split at h
  all_goals first
    | (cases h; assumption)
    | (rw [Operator.kind_of_comparison? h]; assumption)
    | cases h

theorem operatorOf_eq (h : t.operator? = some op) : operatorOf t = op := by simp [operatorOf, h]

/-- The kinds of arithmetic operators need no text to tell them apart. -/
theorem exists_operator {ks : List Kind} (t : Terminal ks)
    (h : ∀ k ∈ ks, k ∈ [Kind.plus, .minus, .times, .divide, .modulo, .power]) :
    ∃ op, t.1.operator? = some op ∧ op.kind ∈ ks := by
  have hs : t.1.operator?.isSome := by
    have hk := h _ t.2
    simp only [List.mem_cons, List.not_mem_nil, or_false] at hk
    rcases hk with hk | hk | hk | hk | hk | hk <;> simp [operator?, hk]
  obtain ⟨op, hop⟩ := Option.isSome_iff_exists.1 hs
  exact ⟨op, hop, kind_of_operator? hop ▸ t.2⟩

theorem operator?_eq_none {ks : List Kind} (t : Terminal ks)
    (h : ∀ k ∈ ks, k ∉ [Kind.plus, .minus, .times, .divide, .modulo, .power, .compare]) :
    t.1.operator? = none := by
  have := h _ t.2
  unfold operator?
  split <;> simp_all

end Token

namespace Parse

namespace Frame

/-- The level of the phrase that the construct waits for. -/
def hole : Frame → Level
  | neg _ => .unary
  | right _ op _ => op.rightLevel
  | _ => .expression

/-- The level of the construct when it is complete. -/
def result : Frame → Level
  | paren | callArg _ _ _ => .primary
  | neg _ => .unary
  | right _ op _ => op.level
  | _ => .expression

/-- Whether the construct ends with the phrase it waits for. -/
def closes : Frame → Bool
  | condFalse _ _ _ | bindBody _ _ _ | neg _ | right _ _ _ => true
  | _ => false

theorem isSome_close? (f : Frame) (e : Expr) : (f.close? e).isSome = f.closes := by cases f <;> rfl

variable {f : Frame} {op : Operator}

theorem result_le_of_bindsBefore (h : f.bindsBefore op = true) : f.result ≤ op.leftLevel := by
  cases f with
  | neg => exact op.unary_le_leftLevel
  | right _ op' _ => exact (op'.bindsBefore_iff op).1 h
  | _ => cases h

theorem bindsBefore_of_result_le (hc : f.closes = true) (h : f.result ≤ op.leftLevel) :
    f.bindsBefore op = true := by
  cases f with
  | neg => rfl
  | right _ op' _ => exact (op'.bindsBefore_iff op).2 h
  | condFalse | bindBody => exact absurd h op.not_expression_le_leftLevel
  | _ => cases hc

theorem closes_of_bindsBefore (h : f.bindsBefore op = true) : f.closes = true := by
  cases f with
  | neg | right => rfl
  | _ => cases h

theorem level_le_hole_iff : op.level ≤ f.hole ↔
    f.bindsBefore op = false ∧ (op.isComparison && f.isComparison) = false := by
  cases f with
  | neg => exact ⟨fun h => absurd h op.not_level_le_unary, fun h => absurd h.1 (by simp [bindsBefore])⟩
  | right _ op' _ => exact op'.level_le_rightLevel_iff op
  | _ => exact ⟨fun _ => ⟨rfl, by simp [isComparison]⟩, fun _ => op.level_le_expression⟩

end Frame

/-- The level of the phrase that the constructs of a stack wait for. -/
def hole : List Frame → Level
  | [] => .expression
  | f :: _ => f.hole

theorem unary_le_hole (stack : List Frame) : Level.unary ≤ hole stack := by
  cases stack with
  | nil => exact Level.le_expression _
  | cons f _ =>
    cases f with
    | neg => exact Nat.le_refl _
    | right _ op _ => exact op.unary_le_rightLevel
    | _ => exact Level.le_expression _

end Parse

end Octal
