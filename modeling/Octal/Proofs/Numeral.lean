import Octal.Numeral

/-!
# Written values

`encode` writes the digits of the magnitude and a minus before them. A magnitude fits 64 bits as long
as its digits spell a number that does, so what `encode` writes decodes to the value it was given.
-/

namespace Octal

namespace Text

theorem strip_eq_self {α : Type} {p : α → Bool} {xs : List α} (h : ∀ x ∈ xs, p x = false) :
    strip p xs = xs := by
  have drop {ys : List α} (hy : ∀ y ∈ ys, p y = false) : ys.dropWhile p = ys := by
    cases ys with
    | nil => rfl
    | cons y ys => simp [hy y (by simp)]
  rw [strip, drop h, drop (by simpa using h), List.reverse_reverse]

/-- White space is not among the printing characters of ASCII. -/
theorem isBlank_eq_false {c : Char} (h : 0x21 ≤ c.toNat) (h' : c.toNat ≤ 0x7E) : isBlank c = false := by
  simp only [isBlank, Bool.or_eq_false_iff, Bool.and_eq_false_iff, decide_eq_false_iff_not,
    beq_eq_false_iff_ne]
  omega

end Text

namespace Numeral

theorem isOctalDigit_digitChar : ∀ d < 8, isOctalDigit (Nat.digitChar d) = true := by decide

theorem digitValue_digitChar : ∀ d < 8, digitValue (Nat.digitChar d) = UInt64.ofNat d := by decide

theorem isOctalDigit_of_mem {n : Nat} {c : Char} (h : c ∈ Nat.toDigits 8 n) : isOctalDigit c = true := by
  induction n using Nat.strongRecOn with
  | _ n ih =>
    rw [Nat.toDigits_eq_if (by decide)] at h
    split at h
    · next hn =>
      rw [List.mem_singleton.1 h]
      exact isOctalDigit_digitChar n hn
    · next hn =>
      rcases List.mem_append.1 h with h | h
      · exact ih (n / 8) (by omega) h
      · rw [List.mem_singleton.1 h]
        exact isOctalDigit_digitChar _ (Nat.mod_lt n (by decide))

theorem magnitude_snoc (ds : List Char) (d : Char) :
    magnitude (ds ++ [d]) = magnitude ds >>= fun m => pushDigit m d := by
  simp [magnitude, List.foldlM_append]

theorem not_lt_ofNat {bound : UInt64} {n : Nat} (h : n ≤ bound.toNat) : ¬ bound < UInt64.ofNat n := by
  rw [UInt64.lt_iff_toNat_lt, UInt64.toNat_ofNat']
  have := Nat.mod_le n (2 ^ 64)
  omega

theorem pushDigit_digitChar {m d : Nat} (hm : m < 0x2000000000000000) (hd : d < 8) :
    pushDigit (UInt64.ofNat m) (Nat.digitChar d) = .ok (UInt64.ofNat (m * 8 + d)) := by
  have h : ¬ maxBeforeShift < UInt64.ofNat m := not_lt_ofNat (show m ≤ 2305843009213693951 by omega)
  rw [pushDigit, if_neg h, digitValue_digitChar d hd, UInt64.ofNat_add, UInt64.ofNat_mul]
  rfl

theorem magnitude_toDigits {n : Nat} (h : n < 0x10000000000000000) :
    magnitude (Nat.toDigits 8 n) = .ok (UInt64.ofNat n) := by
  induction n using Nat.strongRecOn with
  | _ n ih =>
    rw [Nat.toDigits_eq_if (by decide)]
    split
    · next hn =>
      have := pushDigit_digitChar (m := 0) (by decide) hn
      simpa [magnitude] using this
    · next hn =>
      rw [magnitude_snoc, ih (n / 8) (by omega) (by omega)]
      show pushDigit _ _ = _
      rw [pushDigit_digitChar (by omega) (Nat.mod_lt n (by decide)), Nat.div_add_mod']

theorem signed_false {n : Nat} (h : n < 0x8000000000000000) :
    signed false (UInt64.ofNat n) = .ok (Int64.ofNat n) := by
  have h' : ¬ 0x7FFFFFFFFFFFFFFF < UInt64.ofNat n := not_lt_ofNat (show n ≤ 0x7FFFFFFFFFFFFFFF by omega)
  simp [signed, h']

theorem signed_true {n : Nat} (h : n ≤ 0x8000000000000000) :
    signed true (UInt64.ofNat n) = .ok (-Int64.ofNat n) := by
  have h' : ¬ 0x8000000000000000 < UInt64.ofNat n := not_lt_ofNat (show n ≤ 0x8000000000000000 by omega)
  simp [signed, h']

theorem decodeDigits_toDigits {n : Nat} (negative : Bool) (h : n < 0x10000000000000000) :
    decodeDigits negative (Nat.toDigits 8 n) = signed negative (UInt64.ofNat n) := by
  have hne : (Nat.toDigits 8 n).isEmpty = false := by simp [Nat.toDigits_ne_nil]
  have hfind : (Nat.toDigits 8 n).find? (!isOctalDigit ·) = none := by
    rw [List.find?_eq_none]
    intro c hc
    simp [isOctalDigit_of_mem hc]
  rw [decodeDigits, hne, hfind, magnitude_toDigits h]
  rfl

theorem isOctalDigit_iff {c : Char} : isOctalDigit c = true ↔ 0x30 ≤ c.toNat ∧ c.toNat ≤ 0x37 := by
  simp only [isOctalDigit, Bool.and_eq_true, decide_eq_true_eq, Char.le_def, UInt32.le_iff_toNat_le]
  rfl

theorem not_isBlank_of_mem {n : Nat} {c : Char} (h : c ∈ Nat.toDigits 8 n) : Text.isBlank c = false := by
  have := isOctalDigit_iff.1 (isOctalDigit_of_mem h)
  exact Text.isBlank_eq_false (by omega) (by omega)

theorem decode_toDigits {n : Nat} (h : n < 0x8000000000000000) :
    decode (Nat.toDigits 8 n) = .ok (Int64.ofNat n) := by
  rw [decode, Text.trimChars, Text.strip_eq_self fun c => not_isBlank_of_mem]
  split
  · next ds hds =>
    exact absurd (isOctalDigit_of_mem (n := n) (c := '-') (by simp [hds])) (by decide)
  · rw [decodeDigits_toDigits false (by omega), signed_false h]

theorem decode_minus_toDigits {n : Nat} (h : n ≤ 0x8000000000000000) :
    decode ('-' :: Nat.toDigits 8 n) = .ok (-Int64.ofNat n) := by
  have hb : ∀ c ∈ '-' :: Nat.toDigits 8 n, Text.isBlank c = false :=
    List.forall_mem_cons.2 ⟨by decide, fun c => not_isBlank_of_mem⟩
  rw [decode, Text.trimChars, Text.strip_eq_self hb]
  show decodeDigits true _ = _
  rw [decodeDigits_toDigits true (by omega), signed_true h]

/-! ### `encode` -/

variable {v : Value}

theorem toInt_nonneg (h : 0 ≤ v) : 0 ≤ v.toInt := Int64.le_iff_toInt_le.1 h

theorem toInt_neg (h : v < 0) : v.toInt < 0 := Int64.lt_iff_toInt_lt.1 h

theorem toList_encode_of_nonneg (h : 0 ≤ v) : (encode v).toList = Nat.toDigits 8 v.toInt.natAbs := by
  have := toInt_nonneg h
  simp [encode, show ¬ v.toInt < 0 by omega]

theorem toList_encode_of_neg (h : v < 0) : (encode v).toList = '-' :: Nat.toDigits 8 v.toInt.natAbs := by
  simp [encode, toInt_neg h]

theorem ofNat_natAbs_of_nonneg (h : 0 ≤ v) : Int64.ofNat v.toInt.natAbs = v := by
  rw [← Int64.ofInt_eq_ofNat, Int.natAbs_of_nonneg (toInt_nonneg h), Int64.ofInt_toInt]

theorem neg_ofNat_natAbs_of_neg (h : v < 0) : -Int64.ofNat v.toInt.natAbs = v := by
  have := toInt_neg h
  rw [← Int64.ofInt_eq_ofNat, ← Int64.ofInt_neg, show -(v.toInt.natAbs : Int) = v.toInt by omega,
    Int64.ofInt_toInt]

/-- What is written for a value decodes to it. -/
theorem decode_encode (v : Value) : decode (encode v).toList = .ok v := by
  have hlo := v.le_toInt
  have hhi := v.toInt_lt
  by_cases h : v < 0
  · rw [toList_encode_of_neg h, decode_minus_toDigits (by omega), neg_ofNat_natAbs_of_neg h]
  · have h : 0 ≤ v := Int64.not_lt.1 h
    have := toInt_nonneg h
    rw [toList_encode_of_nonneg h, decode_toDigits (by omega), ofNat_natAbs_of_nonneg h]

/-- A minus before a written value that has none. -/
theorem decode_minus_encode (h : 0 ≤ v) : decode ('-' :: (encode v).toList) = .ok (-v) := by
  have hlo := toInt_nonneg h
  have hhi := v.toInt_lt
  rw [toList_encode_of_nonneg h, decode_minus_toDigits (by omega), ofNat_natAbs_of_nonneg h]

end Numeral

end Octal
