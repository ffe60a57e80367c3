import Mathlib
import Octal.Proofs.Arithmetic
import Octal.Proofs.Numeral

/-!
# Numerals and the numbers they spell

A text is white space around an optional minus and a body (`Numeral.Reads`). It decodes to a value just when the body
consists of octal digits and the number they spell, with that sign, is in range; every other text has one cause of
failure (`Numeral.codec_exact`). The unsigned magnitude that is kept while digits are read is the number spelled so
far, and its guard fails at the first digit that takes that number out of 64 bits, from where there is no way back.
-/

namespace Octal

namespace Text
variable {α : Type} {p : α → Bool} {xs core : List α}

/-- `core` is `xs` without the elements satisfying `p` around it. -/
def Trims (p : α → Bool) (xs core : List α) : Prop :=
  ∃ lead trail, xs = lead ++ core ++ trail ∧ (∀ x ∈ lead, p x = true) ∧ (∀ x ∈ trail, p x = true) ∧
    (∀ x ∈ core.head?, p x = false) ∧ ∀ x ∈ core.getLast?, p x = false

theorem dropWhile_append_eq {ys : List α} (hxs : ∀ x ∈ xs, p x = true) (hys : ∀ y ∈ ys.head?, p y = false) :
    (xs ++ ys).dropWhile p = ys := by
  rw [List.dropWhile_append_of_pos hxs]
  cases ys with
  | nil => rfl
  | cons y ys => exact List.dropWhile_cons_of_neg (by simp [hys y rfl])

theorem Trims.strip_eq (h : Trims p xs core) : strip p xs = core := by
  obtain ⟨lead, trail, rfl, hlead, htrail, hhead, hlast⟩ := h
  have hback : ∀ x ∈ trail.reverse, p x = true := by simpa using htrail
  unfold strip
  by_cases hcore : core = []
  · subst hcore
    have hall : (lead ++ [] ++ trail).dropWhile p = [] := by
      rw [List.append_nil]
      exact List.dropWhile_eq_nil_iff.2 fun x hx => (List.mem_append.1 hx).elim (hlead x) (htrail x)
    rw [hall]
    rfl
  · have hfront : (lead ++ core ++ trail).dropWhile p = core ++ trail := by
      rw [List.append_assoc]
      exact dropWhile_append_eq hlead (by rwa [List.head?_append_of_ne_nil _ hcore])
    rw [hfront, List.reverse_append, dropWhile_append_eq hback (by simpa using hlast), List.reverse_reverse]

theorem head?_dropWhile (p : α → Bool) (xs : List α) : ∀ x ∈ (xs.dropWhile p).head?, p x = false := by
  intro x hx
  have := List.head?_dropWhile_not p xs
  rw [Option.mem_def.1 hx] at this
  simpa using this

theorem trims_strip (p : α → Bool) (xs : List α) : Trims p xs (strip p xs) := by
  have hfront := List.takeWhile_append_dropWhile (p := p) (l := xs)
  have hmiddle : xs.dropWhile p = strip p xs ++ ((xs.dropWhile p).reverse.takeWhile p).reverse := by
    rw [strip, ← List.reverse_append, List.takeWhile_append_dropWhile, List.reverse_reverse]
  refine ⟨xs.takeWhile p, ((xs.dropWhile p).reverse.takeWhile p).reverse, ?_, ?_, ?_, ?_, ?_⟩
  · rw [List.append_assoc, ← hmiddle, hfront]
  · exact fun x hx => List.mem_takeWhile_imp hx
  · exact fun x hx => List.mem_takeWhile_imp (List.mem_reverse.1 hx)
  · intro x hx
    refine head?_dropWhile p xs x ?_
    rw [hmiddle, List.head?_append, Option.mem_def.1 hx]
    rfl
  · intro x hx
    rw [strip, List.getLast?_reverse] at hx
    exact head?_dropWhile p _ x hx

end Text

namespace Numeral

/-- All characters are octal digits. -/
def IsOctal (ds : List Char) : Prop := ∀ c ∈ ds, isOctalDigit c = true

theorem isOctal_snoc {ds : List Char} {c : Char} : IsOctal (ds ++ [c]) ↔ IsOctal ds ∧ isOctalDigit c = true := by
  simp only [IsOctal, List.forall_mem_append, List.forall_mem_singleton]

/-- The number that octal digits spell. -/
def spelled (ds : List Char) : Nat := Nat.ofDigits 8 (ds.reverse.map fun c => c.toNat - '0'.toNat)

theorem spelled_snoc (ds : List Char) (c : Char) : spelled (ds ++ [c]) = spelled ds * 8 + (c.toNat - '0'.toNat) := by
  simp only [spelled, List.reverse_append, List.reverse_singleton, List.singleton_append, List.map_cons,
    Nat.ofDigits_cons]
  omega

theorem eq_digitChar {c : Char} (h : isOctalDigit c = true) :
    c.toNat - '0'.toNat < 8 ∧ c = Nat.digitChar (c.toNat - '0'.toNat) := by
  have hc := isOctalDigit_iff.1 h
  have hzero : '0'.toNat = 0x30 := rfl
  refine ⟨by omega, Char.toNat_inj.1 ?_⟩
  rw [Nat.toNat_digitChar_of_lt_ten (by omega)]
  omega

theorem lt_ofNat {bound : UInt64} {n : Nat} (hn : n < 2 ^ 64) (h : bound.toNat < n) : bound < UInt64.ofNat n := by
  rwa [UInt64.lt_iff_toNat_lt, UInt64.toNat_ofNat', Nat.mod_eq_of_lt hn]

/-- The guard before a digit is taken fails just when the digit does not fit any more. -/
theorem pushDigit_eq {n : Nat} {c : Char} (hn : n < 2 ^ 64) (hc : isOctalDigit c = true) :
    pushDigit (UInt64.ofNat n) c =
      if n * 8 + (c.toNat - '0'.toNat) < 2 ^ 64 then .ok (UInt64.ofNat (n * 8 + (c.toNat - '0'.toNat)))
      else .error .overflow := by
  obtain ⟨hlt, heq⟩ := eq_digitChar hc
  split
  · next hfits =>
    have hpush := pushDigit_digitChar (m := n) (by omega) hlt
    rwa [← heq] at hpush
  · next hfits =>
    have hguard : maxBeforeShift < UInt64.ofNat n := lt_ofNat hn (show 0x1FFFFFFFFFFFFFFF < n by omega)
    rw [pushDigit, if_pos hguard]

theorem magnitude_eq {ds : List Char} (h : IsOctal ds) :
    magnitude ds = if spelled ds < 2 ^ 64 then .ok (UInt64.ofNat (spelled ds)) else .error .overflow := by
  induction ds using List.reverseRecOn with
  | nil => rfl
  | append_singleton ds c ih =>
    obtain ⟨hds, hc⟩ := isOctal_snoc.1 h
    rw [magnitude_snoc, ih hds, spelled_snoc]
    split
    · next hfits => exact pushDigit_eq hfits hc
    · next hfits =>
      rw [if_neg (by omega)]
      rfl

/-- The integer that a sign and digits denote. -/
def denoted (negative : Bool) (ds : List Char) : Int := if negative then -spelled ds else spelled ds

theorem signed_exact {n : Nat} (hn : n < 2 ^ 64) (negative : Bool) :
    Value.Exact (signed negative (UInt64.ofNat n)) (if negative then -n else n) := by
  cases negative with
  | true =>
    by_cases hmin : n ≤ 0x8000000000000000
    · rw [signed_true hmin, ← Int64.ofInt_eq_ofNat, ← Int64.ofInt_neg]
      exact .ok (Int64.toInt_ofInt_of_le (by omega) (by omega))
    · have hguard : 0x8000000000000000 < UInt64.ofNat n := lt_ofNat hn (Nat.lt_of_not_le hmin)
      rw [signed, if_pos rfl, if_pos hguard]
      refine .error fun hrange => hmin ?_
      have hlo : -2 ^ 63 ≤ -(n : Int) := hrange.1
      omega
  | false =>
    by_cases hmax : n < 0x8000000000000000
    · rw [signed_false hmax, ← Int64.ofInt_eq_ofNat]
      exact .ok (Int64.toInt_ofInt_of_le (by omega) (by omega))
    · have hguard : 0x7FFFFFFFFFFFFFFF < UInt64.ofNat n := lt_ofNat hn (show 0x7FFFFFFFFFFFFFFF < n by omega)
      rw [signed, if_neg Bool.false_ne_true, if_pos hguard]
      refine .error fun hrange => hmax ?_
      have hhi : (n : Int) ≤ 2 ^ 63 - 1 := hrange.2
      omega

theorem decodeDigits_exact {body : List Char} (negative : Bool) (hne : body ≠ []) (h : IsOctal body) :
    Value.Exact (decodeDigits negative body) (denoted negative body) := by
  have hfind : body.find? (!isOctalDigit ·) = none := by
    rw [List.find?_eq_none]
    intro c hc
    simp [h c hc]
  rw [decodeDigits, if_neg (by simpa using hne), hfind]
  show Value.Exact (magnitude body >>= signed negative) _
  rw [magnitude_eq h]
  split
  · next hfits => exact signed_exact hfits negative
  · next hfits =>
    refine .error fun hrange => hfits ?_
    unfold denoted Value.InRange at hrange
    split at hrange <;> omega

/-! ### Texts -/

/-- `text` is `body` after a minus, if `negative`, with white space around them. A first minus is taken as the sign. -/
def Reads (text : List Char) (negative : Bool) (body : List Char) : Prop :=
  Text.Trims Text.isBlank text (if negative then '-' :: body else body) ∧ (negative = false → body.head? ≠ some '-')

theorem exists_reads (text : List Char) : ∃ negative body, Reads text negative body := by
  have htrims : Text.Trims Text.isBlank text (Text.trimChars text) := Text.trims_strip Text.isBlank text
  by_cases hsign : (Text.trimChars text).head? = some '-'
  · obtain ⟨body, hbody⟩ := List.head?_eq_some_iff.1 hsign
    exact ⟨true, body, hbody ▸ htrims, by simp⟩
  · exact ⟨false, _, htrims, fun _ => hsign⟩

theorem Reads.decode_eq {text body : List Char} {negative : Bool} (h : Reads text negative body) :
    decode text = decodeDigits negative body := by
  obtain ⟨htrims, hsign⟩ := h
  rw [decode, Text.trimChars, htrims.strip_eq]
  cases negative with
  | true => rfl
  | false =>
    rw [if_neg Bool.false_ne_true]
    split
    · exact absurd rfl (hsign rfl)
    · rfl

/-! ### The canonical spelling -/

/-- A numeral without needless zeros, and without the sign of zero. -/
def canonical (negative : Bool) (body : List Char) : List Char :=
  match body.dropWhile (· == '0') with
  | [] => ['0']
  | ds => if negative then '-' :: ds else ds

theorem eq_zero_iff {c : Char} (h : isOctalDigit c = true) : c = '0' ↔ c.toNat - '0'.toNat = 0 := by
  have hc := isOctalDigit_iff.1 h
  have hzero : '0'.toNat = 0x30 := rfl
  rw [← Char.toNat_inj]
  omega

theorem spelled_eq_zero_iff {ds : List Char} (h : IsOctal ds) :
    spelled ds = 0 ↔ ds.dropWhile (· == '0') = [] := by
  rw [List.dropWhile_eq_nil_iff]
  induction ds using List.reverseRecOn with
  | nil => simp [spelled]
  | append_singleton ds c ih =>
    obtain ⟨hds, hc⟩ := isOctal_snoc.1 h
    rw [spelled_snoc, List.forall_mem_append, ← ih hds, List.forall_mem_singleton, beq_iff_eq, eq_zero_iff hc]
    omega

theorem toDigits_spelled {ds : List Char} (h : IsOctal ds) (h0 : spelled ds ≠ 0) :
    Nat.toDigits 8 (spelled ds) = ds.dropWhile (· == '0') := by
  induction ds using List.reverseRecOn with
  | nil => exact absurd rfl h0
  | append_singleton ds c ih =>
    obtain ⟨hds, hc⟩ := isOctal_snoc.1 h
    have hfront := spelled_eq_zero_iff hds
    obtain ⟨hlt, heq⟩ := eq_digitChar hc
    rw [spelled_snoc] at h0 ⊢
    rw [Nat.toDigits_eq_if (by decide), List.dropWhile_append]
    split
    · next hsmall =>
      have hds0 : spelled ds = 0 := by omega
      rw [hfront.1 hds0, if_pos List.isEmpty_nil, hds0, Nat.zero_mul, Nat.zero_add, ← heq]
      have hc0 : c ≠ '0' := fun hc0 => h0 (by rw [hds0, (eq_zero_iff hc).1 hc0])
      exact (List.dropWhile_cons_of_neg (by simpa using hc0)).symm
    · next hlarge =>
      have hds0 : spelled ds ≠ 0 := by omega
      have hne : (ds.dropWhile (· == '0')).isEmpty = false := by simpa using mt hfront.2 hds0
      have hdiv : (spelled ds * 8 + (c.toNat - '0'.toNat)) / 8 = spelled ds := by omega
      have hmod : (spelled ds * 8 + (c.toNat - '0'.toNat)) % 8 = c.toNat - '0'.toNat := by omega
      rw [hne, if_neg Bool.false_ne_true, ← ih hds hds0, hdiv, hmod, ← heq]

theorem canonical_of_ne_nil {body : List Char} (negative : Bool) (h : body.dropWhile (· == '0') ≠ []) :
    canonical negative body =
      if negative then '-' :: body.dropWhile (· == '0') else body.dropWhile (· == '0') := by
  unfold canonical
  split
  · next hnil => exact absurd hnil h
  · rfl

theorem toList_encode_eq {v : Value} {negative : Bool} {body : List Char} (h : IsOctal body)
    (hv : v.toInt = denoted negative body) : (encode v).toList = canonical negative body := by
  have hfront := spelled_eq_zero_iff h
  unfold denoted at hv
  by_cases h0 : spelled body = 0
  · rw [h0] at hv
    obtain rfl : v = 0 := Int64.toInt_inj.1 (hv.trans (by cases negative <;> rfl))
    rw [canonical, hfront.1 h0]
    rfl
  · rw [canonical_of_ne_nil negative (mt hfront.2 h0), ← toDigits_spelled h h0]
    cases negative with
    | true =>
      rw [if_pos rfl] at hv
      rw [toList_encode_of_neg (Int64.lt_iff_toInt_lt.2 (by rw [hv, Int64.toInt_zero]; omega)), hv, Int.natAbs_neg,
        Int.natAbs_natCast]
      rfl
    | false =>
      rw [if_neg Bool.false_ne_true] at hv
      rw [toList_encode_of_nonneg (Int64.le_iff_toInt_le.2 (by rw [hv, Int64.toInt_zero]; omega)), hv,
        Int.natAbs_natCast]
      rfl

/-! ### The codec -/

/-- `c` is the first character that is no octal digit. -/
def FirstBad (ds : List Char) (c : Char) : Prop :=
  ∃ front rest, ds = front ++ c :: rest ∧ IsOctal front ∧ isOctalDigit c = false

theorem firstBad_iff {ds : List Char} {c : Char} : FirstBad ds c ↔ ds.find? (!isOctalDigit ·) = some c := by
  rw [List.find?_eq_some_iff_append]
  constructor
  · rintro ⟨front, rest, hds, hfront, hc⟩
    exact ⟨by simp [hc], front, rest, hds, fun d hd => by simp [hfront d hd]⟩
  · rintro ⟨hc, front, rest, hds, hfront⟩
    exact ⟨front, rest, hds, fun d hd => by simpa using hfront d hd, by simpa using hc⟩

theorem FirstBad.not_isOctal {ds : List Char} {c : Char} (h : FirstBad ds c) : ¬ IsOctal ds := by
  obtain ⟨front, rest, rfl, -, hc⟩ := h
  exact fun hoctal => Bool.false_ne_true (hc.symm.trans (hoctal c (by simp)))

theorem isOctal_or_firstBad (ds : List Char) : IsOctal ds ∨ ∃ c, FirstBad ds c := by
  cases hfind : ds.find? (!isOctalDigit ·) with
  | none => exact .inl fun c hc => by simpa using List.find?_eq_none.1 hfind c hc
  | some c => exact .inr ⟨c, firstBad_iff.2 hfind⟩

/-- The outcome for a sign and what follows it: the integer that is denoted, when there is one and it is a value, and
otherwise one of three errors. -/
structure Outcome (negative : Bool) (body : List Char) (outcome : Except Error Value) : Prop where
  succeeds : (∃ v, outcome = .ok v) ↔ body ≠ [] ∧ IsOctal body ∧ Value.InRange (denoted negative body)
  value : ∀ v, outcome = .ok v → v.toInt = denoted negative body
  empty : outcome = .error (.malformed none .emptyNumeral) ↔ body = []
  badDigit : ∀ c, outcome = .error (.badDigit c) ↔ FirstBad body c
  overflow : outcome = .error .overflow ↔ body ≠ [] ∧ IsOctal body ∧ ¬ Value.InRange (denoted negative body)

theorem outcome_decodeDigits (negative : Bool) (body : List Char) :
    Outcome negative body (decodeDigits negative body) := by
  by_cases hne : body = []
  · subst hne
    have hresult : decodeDigits negative [] = .error (.malformed none .emptyNumeral) := rfl
    rw [hresult]
    constructor <;> simp [FirstBad]
  rcases isOctal_or_firstBad body with hoctal | ⟨c, hbad⟩
  · have hexact := decodeDigits_exact negative hne hoctal
    have hgood (c : Char) : ¬ FirstBad body c := fun hbad => hbad.not_isOctal hoctal
    by_cases hrange : Value.InRange (denoted negative body)
    · obtain ⟨v, hresult, hv⟩ := hexact.value hrange
      rw [hresult]
      constructor <;> simp [hne, hoctal, hrange, hgood, hv]
    · rw [hexact.overflow hrange]
      constructor <;> simp [hne, hoctal, hrange, hgood]
  · have hresult : decodeDigits negative body = .error (.badDigit c) := by
      rw [decodeDigits, if_neg (by simpa using hne), firstBad_iff.1 hbad]
    have hunique (d : Char) : FirstBad body d ↔ c = d := by
      rw [firstBad_iff, firstBad_iff.1 hbad, Option.some_inj]
    rw [hresult]
    constructor <;> simp [hne, hunique, hbad.not_isOctal]

/-- Every text is read in one way, with one outcome; what is encoded decodes to the same value, and encoding a decoded
value gives the canonical spelling of the text. -/
theorem codec_exact :
    (∀ text, ∃ negative body, Reads text negative body) ∧
    (∀ text negative body, Reads text negative body → Outcome negative body (decode text) ∧
      ∀ v, decode text = .ok v → (encode v).toList = canonical negative body) ∧
    ∀ v, decode (encode v).toList = .ok v := by
  refine ⟨exists_reads, fun text negative body hreads => ?_, decode_encode⟩
  have houtcome := hreads.decode_eq ▸ outcome_decodeDigits negative body
  refine ⟨houtcome, fun v hv => ?_⟩
  obtain ⟨-, hoctal, -⟩ := houtcome.succeeds.1 ⟨v, hv⟩
  exact toList_encode_eq hoctal (houtcome.value v hv)

end Numeral

end Octal
