import Mathlib
import Octal.Arithmetic

/-!
# Exact arithmetic

An operation gives the integer it stands for when that is a value, and an overflow otherwise (`Value.Exact`). A wrapped
result differs from the exact one by a multiple of 2 ^ 64, so it is the exact one as soon as that is in range, and the
tests of `add`, `sub` and `mul` hold just when it is not. Division and remainder correct those that round toward zero.

The loop of `pow` keeps `result * base ^ exp`. When one of its products leaves the range, so does the power: what is
left to multiply with is a square other than zero, and no square is exactly 2 ^ 63.
-/

namespace Octal.Value

/-- The integers that values denote. -/
def InRange (n : Int) : Prop := -2 ^ 63 ≤ n ∧ n ≤ 2 ^ 63 - 1

instance (n : Int) : Decidable (InRange n) := inferInstanceAs (Decidable (_ ∧ _))

/-- The outcome of an operation whose result is `n`. -/
structure Exact (outcome : Except Error Value) (n : Int) : Prop where
  value : InRange n → ∃ v : Value, outcome = .ok v ∧ v.toInt = n
  overflow : ¬ InRange n → outcome = .error .overflow

theorem inRange_toInt (v : Value) : InRange v.toInt := by
  have hlo := v.le_toInt
  have hhi := v.toInt_lt
  unfold InRange
  omega

theorem bmod_of_inRange {n : Int} (h : InRange n) : n.bmod (2 ^ 64) = n := by
  obtain ⟨hlo, hhi⟩ := h
  exact Int.bmod_eq_of_le (by omega) (by omega)

/-- Wrapping changes an integer by a multiple of 2 ^ 64. -/
theorem exists_wrap {n : Int} {v : Value} (hv : v.toInt = n.bmod (2 ^ 64)) : ∃ k, n = v.toInt + 2 ^ 64 * k :=
  ⟨n.bdiv (2 ^ 64), by rw [hv]; exact (Int.bmod_add_bdiv n (2 ^ 64)).symm⟩

namespace Exact
variable {n : Int} {v : Value}

theorem ok (h : v.toInt = n) : Exact (.ok v) n :=
  ⟨fun _ => ⟨v, rfl, h⟩, fun hn => absurd (h ▸ inRange_toInt v) hn⟩

theorem error (h : ¬ InRange n) : Exact (.error .overflow) n := ⟨fun hn => absurd hn h, fun _ => rfl⟩

theorem eq_overflow {r : Except Error Value} {e : Error} (h : Exact r n) (he : r = .error e) : e = .overflow := by
  by_cases hn : InRange n
  · obtain ⟨v, hv, -⟩ := h.value hn
    cases he.symm.trans hv
  · cases he.symm.trans (h.overflow hn)
    rfl

/-- One operation after another. It suffices that a first result out of range leaves no way back into it. -/
theorem bind {r : Except Error Value} {k : Value → Except Error Value} {m : Int} (h : Exact r m)
    (hk : ∀ v : Value, v.toInt = m → Exact (k v) n) (hm : ¬ InRange m → ¬ InRange n) : Exact (r >>= k) n := by
  by_cases hrange : InRange m
  · obtain ⟨v, rfl, hv⟩ := h.value hrange
    exact hk v hv
  · rw [h.overflow hrange]
    exact error (hm hrange)

/-- A wrapped result is refused by a test that finds out whether it is wrong. -/
theorem of_wrapped {overflows : Bool} (hv : v.toInt = n.bmod (2 ^ 64)) (h : overflows = true ↔ v.toInt ≠ n) :
    Exact (if overflows then .error .overflow else .ok v) n := by
  by_cases hn : v.toInt = n
  · rw [if_neg fun ho => h.1 ho hn]
    exact ok hn
  · rw [if_pos (h.2 hn)]
    exact error fun hrange => hn (hv.trans (bmod_of_inRange hrange))

end Exact

/-! ### Sums, differences and products -/

section
variable (a b : Value)

theorem add_exact : Exact (a.add b) (a.toInt + b.toInt) := by
  have hc : (a + b).toInt = (a.toInt + b.toInt).bmod (2 ^ 64) := Int64.toInt_add a b
  refine .of_wrapped hc ?_
  obtain ⟨k, hk⟩ := exists_wrap hc
  obtain ⟨ha, ha'⟩ := inRange_toInt a
  obtain ⟨hb, hb'⟩ := inRange_toInt b
  obtain ⟨hs, hs'⟩ := inRange_toInt (a + b)
  simp only [Bool.or_eq_true, Bool.and_eq_true, decide_eq_true_eq, Int64.lt_iff_toInt_lt, Int64.le_iff_toInt_le,
    Int64.toInt_zero]
  omega

theorem sub_exact : Exact (a.sub b) (a.toInt - b.toInt) := by
  have hc : (a - b).toInt = (a.toInt - b.toInt).bmod (2 ^ 64) := Int64.toInt_sub a b
  refine .of_wrapped hc ?_
  obtain ⟨k, hk⟩ := exists_wrap hc
  obtain ⟨ha, ha'⟩ := inRange_toInt a
  obtain ⟨hb, hb'⟩ := inRange_toInt b
  obtain ⟨hs, hs'⟩ := inRange_toInt (a - b)
  simp only [Bool.or_eq_true, Bool.and_eq_true, decide_eq_true_eq, Int64.lt_iff_toInt_lt, Int64.le_iff_toInt_le,
    Int64.toInt_zero]
  omega

theorem eq_minValue_iff : a = Int64.minValue ↔ a.toInt = -2 ^ 63 := by
  rw [← Int64.toInt_inj, Int64.toInt_minValue]

theorem neg_exact : Exact a.neg (-a.toInt) := by
  have hc : (-a).toInt = (-a.toInt).bmod (2 ^ 64) := Int64.toInt_neg a
  refine .of_wrapped hc ?_
  obtain ⟨k, hk⟩ := exists_wrap hc
  obtain ⟨ha, ha'⟩ := inRange_toInt a
  obtain ⟨hs, hs'⟩ := inRange_toInt (-a)
  rw [beq_iff_eq, eq_minValue_iff]
  omega

end

section
variable {a b : Value}

theorem toInt_ne_zero (h : a ≠ 0) : a.toInt ≠ 0 := fun h0 => h (Int64.toInt_inj.1 h0)

/-- The quotient toward zero wraps around only for the least value and minus one. -/
theorem toInt_div_of_not_min (h : ¬ (a = Int64.minValue ∧ b = -1)) : (a / b).toInt = a.toInt.tdiv b.toInt := by
  by_cases ha : a = Int64.minValue
  · exact Int64.toInt_div_of_ne_right a b fun hb => h ⟨ha, hb⟩
  · exact Int64.toInt_div_of_ne_left a b ha

/-- What division toward zero leaves: less than the divisor, and of the sign of the dividend. -/
theorem tdiv_tmod_spec (a : Int) {b : Int} (hb : b ≠ 0) :
    a.tmod b + b * a.tdiv b = a ∧ (a.tmod b).natAbs < b.natAbs ∧ (0 ≤ a → 0 ≤ a.tmod b) ∧ (a ≤ 0 → a.tmod b ≤ 0) := by
  refine ⟨Int.tmod_add_mul_tdiv a b, ?_, Int.tmod_nonneg b, ?_⟩
  · rw [Int.natAbs_tmod]
    exact Nat.mod_lt _ (by omega)
  · intro ha
    have := Int.tmod_nonneg (a := -a) b (by omega)
    rw [Int.neg_tmod] at this
    omega

/-- A wrapped product gives the other factor back only when it is right: the division leaves a multiple of 2 ^ 64 that
is smaller than the divisor. -/
theorem mul_div_eq_iff (hb : b ≠ 0) (hmin : ¬ (b = -1 ∧ a = Int64.minValue)) :
    a * b / b = a ↔ (a * b).toInt = a.toInt * b.toInt := by
  have hb0 := toInt_ne_zero hb
  constructor
  · intro hback
    have hquot : (a * b / b).toInt = (a * b).toInt.tdiv b.toInt := by
      refine toInt_div_of_not_min ?_
      rintro ⟨hmul, rfl⟩
      rw [hmul] at hback
      exact hmin ⟨rfl, hback.symm⟩
    rw [hback] at hquot
    obtain ⟨hdiv, hlt, -⟩ := tdiv_tmod_spec (a * b).toInt hb0
    rw [← hquot, Int.mul_comm] at hdiv
    obtain ⟨k, hk⟩ := exists_wrap (Int64.toInt_mul a b)
    obtain ⟨hlo, hhi⟩ := inRange_toInt b
    omega
  · intro hmul
    have hquot : (a * b / b).toInt = a.toInt := by
      rw [Int64.toInt_div, hmul, Int.mul_tdiv_cancel _ hb0, bmod_of_inRange (inRange_toInt a)]
    exact Int64.toInt_inj.1 hquot

theorem mul_exact (a b : Value) : Exact (a.mul b) (a.toInt * b.toInt) := by
  unfold mul
  split
  · next h0 =>
    simp only [Bool.or_eq_true, beq_iff_eq] at h0
    rcases h0 with rfl | rfl <;> exact .ok (by simp)
  split
  · next hmin =>
    refine .error ?_
    simp only [Bool.or_eq_true, Bool.and_eq_true, beq_iff_eq] at hmin
    rcases hmin with ⟨rfl, rfl⟩ | ⟨rfl, rfl⟩ <;> simp [InRange]
  · next h0 hmin =>
    simp only [Bool.or_eq_true, Bool.and_eq_true, beq_iff_eq, not_or] at h0 hmin
    refine .of_wrapped (Int64.toInt_mul a b) ?_
    rw [bne_iff_ne, ne_eq, mul_div_eq_iff h0.2 hmin.2]

/-! ### Quotients and remainders -/

theorem fdiv_fmod_eq {a b q m : Int} (hdiv : m + b * q = a) (hm : 0 ≤ m ∧ m < b ∨ b < m ∧ m ≤ 0) :
    a.fdiv b = q ∧ a.fmod b = m := by
  rcases hm with ⟨hlo, hhi⟩ | ⟨hlo, hhi⟩
  · exact (Int.fdiv_fmod_unique (by omega)).2 ⟨hdiv, hlo, hhi⟩
  · exact (Int.fdiv_fmod_unique' (by omega)).2 ⟨hdiv, hlo, hhi⟩

/-- Signs differ and something is left: the quotient toward zero is one too great. -/
theorem fdiv_fmod_of_opposite {a b : Int} (hb : b ≠ 0) (hm : a.tmod b ≠ 0) (hsign : ¬ (a < 0 ↔ b < 0)) :
    a.fdiv b = a.tdiv b - 1 ∧ a.fmod b = a.tmod b + b := by
  obtain ⟨hdiv, hlt, hnonneg, hnonpos⟩ := tdiv_tmod_spec a hb
  refine fdiv_fmod_eq ?_ (by omega)
  rw [Int.mul_sub, Int.mul_one]
  omega

theorem fdiv_fmod_of_agree {a b : Int} (hb : b ≠ 0) (h : a.tmod b ≠ 0 → (a < 0 ↔ b < 0)) :
    a.fdiv b = a.tdiv b ∧ a.fmod b = a.tmod b := by
  obtain ⟨hdiv, hlt, hnonneg, hnonpos⟩ := tdiv_tmod_spec a hb
  exact fdiv_fmod_eq hdiv (by omega)

theorem floorDiv_exact (hb : b ≠ 0) : Exact (a.floorDiv b) (a.toInt.fdiv b.toInt) := by
  have hb0 := toInt_ne_zero hb
  unfold floorDiv
  rw [if_neg (by simpa using hb)]
  split
  · next hmin =>
    simp only [Bool.and_eq_true, beq_iff_eq] at hmin
    obtain ⟨rfl, rfl⟩ := hmin
    exact .error (by simp [InRange])
  · next hmin =>
    simp only [Bool.and_eq_true, beq_iff_eq] at hmin
    have hquot := toInt_div_of_not_min hmin
    refine .ok ?_
    simp only [Bool.and_eq_true, bne_iff_ne, ne_eq, decide_eq_decide, ← Int64.toInt_inj, Int64.toInt_mod,
      Int64.lt_iff_toInt_lt, Int64.toInt_zero]
    split
    · next htest =>
      obtain ⟨hm, hsign⟩ := htest
      rw [(fdiv_fmod_of_opposite hb0 hm hsign).1, Int64.toInt_sub, hquot]
      refine bmod_of_inRange ?_
      -- A quotient that is the least value comes from a divisor of magnitude one, which leaves nothing.
      obtain ⟨hdiv, hlt, -⟩ := tdiv_tmod_spec a.toInt hb0
      obtain ⟨ha, ha'⟩ := inRange_toInt a
      obtain ⟨hq, hq'⟩ := hquot ▸ inRange_toInt (a / b)
      by_contra hrange
      have hq0 : a.toInt.tdiv b.toInt = -2 ^ 63 := by
        unfold InRange at hrange
        simp only [Int64.toInt_one] at hrange
        omega
      rw [hq0] at hdiv
      omega
    · next htest =>
      rw [(fdiv_fmod_of_agree hb0 fun hm => by_contra fun hsign => htest ⟨hm, hsign⟩).1, hquot]

/-- The remainder has the sign of the dividend, so this test is the one of `floorDiv`. -/
theorem floorMod_eq (hb : b ≠ 0) : ∃ v : Value, a.floorMod b = .ok v ∧ v.toInt = a.toInt.fmod b.toInt := by
  have hb0 := toInt_ne_zero hb
  obtain ⟨-, hlt, hnonneg, hnonpos⟩ := tdiv_tmod_spec a.toInt hb0
  obtain ⟨hlo, hhi⟩ := inRange_toInt b
  unfold floorMod
  rw [if_neg (by simpa using hb)]
  refine ⟨_, rfl, ?_⟩
  simp only [Bool.and_eq_true, bne_iff_ne, ne_eq, decide_eq_decide, ← Int64.toInt_inj, Int64.toInt_mod,
    Int64.lt_iff_toInt_lt, Int64.toInt_zero]
  split
  · next htest =>
    obtain ⟨hm, hsign⟩ := htest
    rw [(fdiv_fmod_of_opposite hb0 hm (by omega)).2, Int64.toInt_add, Int64.toInt_mod]
    exact bmod_of_inRange ⟨by omega, by omega⟩
  · next htest =>
    rw [(fdiv_fmod_of_agree hb0 (by omega)).2, Int64.toInt_mod]

theorem fdiv_eq_floor (a b : Int) : a.fdiv b = ⌊(a : ℚ) / b⌋ := by
  have hnonneg (a : Int) {b : Int} (hb : 0 ≤ b) : a.fdiv b = ⌊(a : ℚ) / b⌋ := by
    lift b to Nat using hb
    rw [Int.fdiv_eq_ediv_of_nonneg a (Int.natCast_nonneg b), Int.cast_natCast, Rat.floor_intCast_div_natCast]
  rcases le_total 0 b with hb | hb
  · exact hnonneg a hb
  · rw [← Int.neg_fdiv_neg, hnonneg (-a) (by omega), Int.cast_neg, Int.cast_neg, neg_div_neg_eq]

theorem floorDiv_by_zero_iff : a.floorDiv b = .error .divisionByZero ↔ b = 0 := by
  constructor
  · intro h
    by_contra hb
    cases (floorDiv_exact hb).eq_overflow h
  · rintro rfl
    rfl

theorem floorMod_by_zero_iff : a.floorMod b = .error .divisionByZero ↔ b = 0 := by
  constructor
  · intro h
    by_contra hb
    obtain ⟨v, hv, -⟩ := floorMod_eq (a := a) hb
    cases h.symm.trans hv
  · rintro rfl
    rfl

theorem floorDiv_overflow_iff : a.floorDiv b = .error .overflow ↔ a.toInt = -2 ^ 63 ∧ b.toInt = -1 := by
  rw [← eq_minValue_iff, show b.toInt = -1 ↔ b = -1 from Int64.toInt_inj (y := -1)]
  constructor
  · intro h
    unfold floorDiv at h
    split at h
    · cases h
    · split at h
      · next hmin => simpa using hmin
      · cases h
  · rintro ⟨rfl, rfl⟩
    rfl

/-- A remainder is zero or has the sign of the divisor. -/
theorem sign_fmod (a : Int) {b : Int} (hb : b ≠ 0) : a.fmod b = 0 ∨ (a.fmod b).sign = b.sign := by
  rcases lt_or_gt_of_ne hb with hneg | hpos
  · obtain ⟨-, -, hnonpos⟩ := (Int.fdiv_fmod_unique' (a := a) hneg).1 ⟨rfl, rfl⟩
    rcases Int.lt_or_eq_of_le hnonpos with hlt | heq
    · exact .inr ((Int.sign_eq_neg_one_of_neg hlt).trans (Int.sign_eq_neg_one_of_neg hneg).symm)
    · exact .inl heq
  · rcases Int.lt_or_eq_of_le (Int.fmod_nonneg_of_pos a hpos) with hlt | heq
    · exact .inr ((Int.sign_eq_one_of_pos hlt).trans (Int.sign_eq_one_of_pos hpos).symm)
    · exact .inl heq.symm

/-- Every operation is exact on all values. -/
theorem arithmetic_exact (a b : Value) :
    Exact (Operator.add.apply a b) (a.toInt + b.toInt) ∧ Exact (Operator.sub.apply a b) (a.toInt - b.toInt) ∧
      Exact (Operator.mul.apply a b) (a.toInt * b.toInt) ∧ Exact a.neg (-a.toInt) ∧
      (Operator.div.apply a b = .error .divisionByZero ↔ b = 0) ∧
      (Operator.mod.apply a b = .error .divisionByZero ↔ b = 0) ∧
      (Operator.div.apply a b = .error .overflow ↔ a.toInt = -2 ^ 63 ∧ b.toInt = -1) ∧
      (b = 0 ∨ Exact (Operator.div.apply a b) ⌊(a.toInt : ℚ) / b.toInt⌋ ∧
        ∃ v : Value, Operator.mod.apply a b = .ok v ∧ v.toInt = a.toInt - b.toInt * ⌊(a.toInt : ℚ) / b.toInt⌋ ∧
          (v.toInt = 0 ∨ v.toInt.sign = b.toInt.sign)) := by
  refine ⟨add_exact a b, sub_exact a b, mul_exact a b, neg_exact a, floorDiv_by_zero_iff, floorMod_by_zero_iff,
    floorDiv_overflow_iff, ?_⟩
  by_cases hb : b = 0
  · exact .inl hb
  · obtain ⟨v, hmod, hv⟩ := floorMod_eq (a := a) hb
    rw [← fdiv_eq_floor, ← Int.fmod_def, ← hv]
    refine .inr ⟨floorDiv_exact hb, v, hmod, rfl, ?_⟩
    rw [hv]
    exact sign_fmod a.toInt (toInt_ne_zero hb)

end

/-! ### Powers -/

theorem not_inRange_mul {n k : Int} (hn : ¬ InRange n) (hk : 0 < k) : ¬ InRange (n * k) := by
  rintro ⟨hlo, hhi⟩
  refine hn ⟨?_, ?_⟩ <;> by_contra h <;> nlinarith

theorem lt_of_square {b : Int} (h : ¬ InRange (b * b)) : 2 ^ 63 < b * b := by
  have hne : b * b ≠ 2 ^ 63 := fun heq => (by norm_num : ¬ IsSquare (2 ^ 63 : Int)) ⟨b, heq.symm⟩
  have hnonneg := mul_self_nonneg b
  unfold InRange at h
  omega

theorem not_inRange_of_square {r b : Int} {e : Nat} (h : ¬ InRange (b * b)) (hr : r ≠ 0) (he : e ≠ 0) :
    ¬ InRange (r * (b * b) ^ e) := by
  have hsquare := lt_of_square h
  have hpow : b * b ≤ (b * b) ^ e := le_self_pow₀ (by omega) he
  rintro ⟨hlo, hhi⟩
  rcases lt_or_gt_of_ne hr with hr | hr <;> nlinarith

/-- What is multiplied so far is zero only when the base is, so no square leaves the range for nothing. -/
theorem powLoop_exact {result base : Value} {exp : Nat} (h : result.toInt = 0 → base.toInt = 0) :
    Exact (powLoop result base exp) (result.toInt * base.toInt ^ exp) := by
  induction exp using Nat.strongRecOn generalizing result base with
  | ind exp ih =>
    rw [powLoop]
    split
    · next hexp => exact .ok (by simp [hexp])
    -- What is left when the lowest bit of the exponent has been taken into account.
    have rest {r : Value} (hr : r.toInt = 0 → base.toInt = 0) :
        Exact (if exp / 2 = 0 then pure r else do powLoop r (← mul base base) (exp / 2))
          (r.toInt * (base.toInt * base.toInt) ^ (exp / 2)) := by
      split
      · next hhalf => exact .ok (by simp [hhalf])
      · next hhalf =>
        refine (mul_exact base base).bind ?_ ?_
        · intro square hsquare
          rw [← hsquare]
          refine ih (exp / 2) (by omega) fun h0 => ?_
          rw [hsquare, hr h0, zero_mul]
        · intro hsquare
          refine not_inRange_of_square hsquare (fun h0 => hsquare ?_) hhalf
          rw [hr h0]
          decide
    have hsplit : base.toInt ^ exp = base.toInt ^ (exp % 2) * (base.toInt * base.toInt) ^ (exp / 2) := by
      rw [← pow_two, ← pow_mul, ← pow_add, Nat.mod_add_div]
    rw [hsplit, ← mul_assoc]
    by_cases hodd : exp % 2 = 1
    · rw [if_pos hodd, hodd, pow_one]
      refine (mul_exact result base).bind ?_ ?_
      · intro product hproduct
        rw [← hproduct]
        refine rest fun h0 => ?_
        rcases mul_eq_zero.1 (hproduct.symm.trans h0) with h0 | h0
        · exact h h0
        · exact h0
      · intro hproduct
        have hbase : base.toInt ≠ 0 := by
          intro h0
          rw [h0, mul_zero] at hproduct
          exact hproduct (by decide)
        exact not_inRange_mul hproduct (pow_pos (mul_self_pos.2 hbase) _)
    · rw [if_neg hodd, Nat.mod_two_ne_one.1 hodd, pow_zero, mul_one]
      exact rest h

theorem pow_exact {base exp : Value} (h : 0 ≤ exp.toInt) : Exact (base.pow exp) (base.toInt ^ exp.toInt.toNat) := by
  unfold pow
  rw [if_neg (by rw [Int64.lt_iff_toInt_lt]; exact Int.not_lt.2 h)]
  have hloop : Exact (powLoop 1 base exp.toNatClampNeg) ((1 : Value).toInt * base.toInt ^ exp.toNatClampNeg) :=
    powLoop_exact (by simp)
  rw [Int64.toInt_one, one_mul] at hloop
  exact hloop

/-- A power is computed whenever it is a value, whatever the squares and products on the way. -/
theorem power_exact (base exp : Value) :
    (Operator.pow.apply base exp = .error .negativeExponent ↔ exp.toInt < 0) ∧
      (exp.toInt < 0 ∨ Exact (Operator.pow.apply base exp) (base.toInt ^ exp.toInt.toNat)) := by
  by_cases hexp : exp.toInt < 0
  · have hpow : base.pow exp = .error .negativeExponent := if_pos (Int64.lt_iff_toInt_lt.2 hexp)
    exact ⟨⟨fun _ => hexp, fun _ => hpow⟩, .inl hexp⟩
  · have hexact : Exact (base.pow exp) (base.toInt ^ exp.toInt.toNat) := pow_exact (Int.not_lt.1 hexp)
    refine ⟨⟨fun h => ?_, fun h => absurd h hexp⟩, .inr hexact⟩
    cases hexact.eq_overflow h

end Octal.Value
