import Mathlib
import Octal.Calendar

/-!
# Written instants

An instant of the years 0 to 9999 is read back from the text that it is written as (`Moment.parse?_render`). The text of any
other instant cannot be read (`Moment.parse?_render_eq_none`), since a year has four digits there and no sign.

Its date is valid and denotes the instant (`Instant.toCivil_spec`). For this a day is cut into its cycles of 400, 100, 4
and 1 years, in which only the last century and the last of four years can have a day more (`Calendar.Place`). The
numbers of the text have as many digits as the reader takes, and a fraction has lost only zeros, which the reader puts
back (`Timestamp.fraction_fraction`).
-/

namespace Octal

open Text

/-! ### Dates -/

namespace Calendar

theorem isLeap_iff {year : Int} : isLeap year = true ↔ year % 4 = 0 ∧ (year % 100 ≠ 0 ∨ year % 400 = 0) := by
  simp [isLeap]

/-- The `n`-th day by its cycles of 400, 100 and 4 years, its year and its number in that. -/
structure Place (n cycles centuries fours years day : Int) : Prop where
  eq : n = 146097 * cycles + 36524 * centuries + 1461 * fours + 365 * years + day
  centuries_bound : 0 ≤ centuries ∧ centuries ≤ 3
  fours_bound : 0 ≤ fours ∧ fours ≤ 24
  years_bound : 0 ≤ years ∧ years ≤ 3
  day_bound : 0 ≤ day ∧ day ≤ 365
  leap_day : day = 365 → years = 3 ∧ (fours = 24 → centuries = 3)

theorem exists_place (n : Int) : ∃ cycles centuries fours years day, Place n cycles centuries fours years day ∧
    yearOfDay n = (400 * cycles + 100 * centuries + 4 * fours + years + 1, day.toNat) := by
  refine ⟨_, _, _, _, _, ?_, rfl⟩
  -- One cycle after the other, each division is replaced by what is known of its quotient and rest.
  have hcycles : 146097 * (n / 146097) + n % 146097 = n := Int.mul_ediv_add_emod n 146097
  have hinCycle : 0 ≤ n % 146097 ∧ n % 146097 < 146097 := by omega
  generalize n / 146097 = cycles at *
  generalize n % 146097 = inCycle at *
  have hcenturies : 0 ≤ min (inCycle / 36524) 3 ∧ min (inCycle / 36524) 3 ≤ 3 := by omega
  have hinCentury : 0 ≤ inCycle - min (inCycle / 36524) 3 * 36524 ∧
      inCycle - min (inCycle / 36524) 3 * 36524 ≤ 36524 ∧
      (inCycle - min (inCycle / 36524) 3 * 36524 = 36524 → min (inCycle / 36524) 3 = 3) := by omega
  generalize min (inCycle / 36524) 3 = centuries at *
  obtain ⟨inCentury, hcentury⟩ : ∃ x, x = inCycle - centuries * 36524 := ⟨_, rfl⟩
  rw [← hcentury] at hinCentury ⊢
  have hfour : 1461 * (inCentury / 1461) + inCentury % 1461 = inCentury := Int.mul_ediv_add_emod inCentury 1461
  have hinFour : 0 ≤ inCentury % 1461 ∧ inCentury % 1461 < 1461 := by omega
  have hfours : 0 ≤ inCentury / 1461 ∧ inCentury / 1461 ≤ 24 := by omega
  generalize inCentury / 1461 = fours at *
  generalize inCentury % 1461 = inFour at *
  have hyears : 0 ≤ min (inFour / 365) 3 ∧ min (inFour / 365) 3 ≤ 3 := by omega
  have hday : 0 ≤ inFour - min (inFour / 365) 3 * 365 ∧ inFour - min (inFour / 365) 3 * 365 ≤ 365 ∧
      (inFour - min (inFour / 365) 3 * 365 = 365 → min (inFour / 365) 3 = 3) := by omega
  generalize min (inFour / 365) 3 = years at *
  exact ⟨by omega, hcenturies, hfours, hyears, ⟨hday.1, hday.2.1⟩, by omega⟩

namespace Place
variable {n cycles centuries fours years day : Int} (h : Place n cycles centuries fours years day)
include h

theorem daysBeforeYear_add :
    daysBeforeYear (400 * cycles + 100 * centuries + 4 * fours + years + 1) + day = n := by
  obtain ⟨hn, hcenturies, hfours, hyears, -, -⟩ := h
  have h4 : (400 * cycles + 100 * centuries + 4 * fours + years) / 4 = 100 * cycles + 25 * centuries + fours := by omega
  have h100 : (400 * cycles + 100 * centuries + 4 * fours + years) / 100 = 4 * cycles + centuries := by omega
  have h400 : (400 * cycles + 100 * centuries + 4 * fours + years) / 400 = cycles := by omega
  simp only [daysBeforeYear, Int.add_sub_cancel, h4, h100, h400]
  omega

theorem isLeap (hday : day = 365) : isLeap (400 * cycles + 100 * centuries + 4 * fours + years + 1) = true := by
  obtain ⟨-, hcenturies, hfours, -, -, hleap⟩ := h
  obtain ⟨rfl, hlast⟩ := hleap hday
  rw [isLeap_iff]
  omega

end Place

theorem yearOfDay_spec (n : Int) : daysBeforeYear (yearOfDay n).1 + (yearOfDay n).2 = n ∧
    (yearOfDay n).2 < if isLeap (yearOfDay n).1 then 366 else 365 := by
  obtain ⟨cycles, centuries, fours, years, day, hp, hn⟩ := exists_place n
  have hday := hp.day_bound
  rw [hn]
  constructor
  · rw [Int.toNat_of_nonneg hday.1]
    exact hp.daysBeforeYear_add
  · simp only
    split
    · omega
    · next hleap =>
      have hne : day ≠ 365 := fun h => hleap (hp.isLeap h)
      omega

theorem foldl_add (a : Nat) (ns : List Nat) : ns.foldl (· + ·) a = a + ns.foldl (· + ·) 0 := by
  induction ns generalizing a with
  | nil => rfl
  | cons n ns ih => rw [List.foldl_cons, List.foldl_cons, ih (a + n), ih (0 + n), Nat.zero_add, Nat.add_assoc]

/-- A day that the months have room for is a day of one of them. -/
theorem monthOfDay_spec (month : Nat) {n : Nat} {lengths : List Nat} (h : n < lengths.foldl (· + ·) 0) :
    ∃ i day length, monthOfDay month n lengths = (month + i, day + 1) ∧
      n = (lengths.take i).foldl (· + ·) 0 + day ∧ lengths[i]? = some length ∧ day < length := by
  induction lengths generalizing month n with
  | nil => cases h
  | cons length rest ih =>
    rw [List.foldl_cons, foldl_add] at h
    rw [monthOfDay]
    split
    · next hn => exact ⟨0, n, length, rfl, (Nat.zero_add n).symm, rfl, hn⟩
    · obtain ⟨i, day, length', hmonth, hn, hi, hday⟩ := ih (month + 1) (n := n - length) (by omega)
      refine ⟨i + 1, day, length', ?_, ?_, hi, hday⟩
      · rw [hmonth, Nat.add_right_comm, Nat.add_assoc]
      · rw [List.take_succ_cons, List.foldl_cons, foldl_add]
        omega

theorem length_monthLengths (leap : Bool) : (monthLengths leap).length = 12 := rfl

theorem foldl_monthLengths (leap : Bool) : (monthLengths leap).foldl (· + ·) 0 = if leap then 366 else 365 := by
  cases leap <;> rfl

theorem daysIn_le (year : Int) (month : Nat) : daysIn year month ≤ 31 := by
  have hmem : ∀ length ∈ monthLengths (isLeap year), length ≤ 31 := by
    cases isLeap year <;> simp [monthLengths]
  cases month with
  | zero => exact Nat.zero_le _
  | succ m =>
    rw [daysIn]
    cases hm : (monthLengths (isLeap year))[m]? with
    | none => exact Nat.zero_le _
    | some length => exact hmem length (List.mem_of_getElem? hm)

end Calendar

namespace Instant

open Calendar

/-- The date and time of an instant exist, and are those of no other instant. -/
theorem toCivil_spec (t : Instant) : isValid t.toCivil = true ∧ ofCivil t.toCivil 0 = t := by
  obtain ⟨hyear, hlt⟩ := yearOfDay_spec (t.seconds / 86400 + epochDay)
  rw [toCivil]
  generalize yearOfDay (t.seconds / 86400 + epochDay) = p at hyear hlt ⊢
  obtain ⟨year, yearDay⟩ := p
  simp only at hyear hlt
  rw [← foldl_monthLengths] at hlt
  obtain ⟨i, day, length, hmonth, hday, hi, hlength⟩ := monthOfDay_spec 1 hlt
  have hi12 : i < 12 := by
    rw [← length_monthLengths (isLeap year)]
    exact (List.getElem?_eq_some_iff.1 hi).1
  have hdaysIn : daysIn year (1 + i) = length := by
    rw [Nat.add_comm, daysIn, hi]
    rfl
  have hbefore : daysBeforeMonth (isLeap year) (1 + i) + day = yearDay := by
    rw [hday, daysBeforeMonth, Nat.add_sub_cancel_left]
  simp only [hmonth]
  constructor
  · simp only [isValid, hdaysIn, Bool.and_eq_true, decide_eq_true_eq]
    omega
  · rw [ofCivil, dayNumber]
    obtain ⟨seconds, nanos⟩ := t
    congr 1
    simp only [Nat.add_sub_cancel] at hyear ⊢
    omega

end Instant

/-! ### Numbers -/

theorem digitIn?_digitChar : ∀ d < 10, digitIn? 10 (Nat.digitChar d) = some d := by decide

theorem isDigit_digitChar : ∀ d < 10, isDigit (Nat.digitChar d) = true := by decide

theorem natOfDigits_snoc (ds : List Char) {d : Nat} (h : d < 10) :
    natOfDigits (ds ++ [Nat.digitChar d]) = natOfDigits ds * 10 + d := by
  rw [natOfDigits, List.foldl_append, ← natOfDigits, List.foldl_cons, List.foldl_nil, digitIn?_digitChar d h]
  rfl

theorem natOfDigits_lt (ds : List Char) : natOfDigits ds < 10 ^ ds.length := by
  induction ds using List.reverseRecOn with
  | nil => decide
  | append_singleton ds d ih =>
    have hd : (digitIn? 10 d).getD 0 < 10 := by
      cases hd : digitIn? 10 d with
      | none => decide
      | some x =>
        have := (Option.filter_eq_some_iff.1 hd).2
        simpa using this
    rw [natOfDigits, List.foldl_append, ← natOfDigits, List.foldl_cons, List.foldl_nil, List.length_append,
      List.length_singleton, Nat.pow_succ]
    omega

namespace Instant

theorem digits_succ (width n : Nat) :
    digits (width + 2) n = digits (width + 1) (n / 10) ++ [Nat.digitChar (n % 10)] := by
  simp only [digits]
  rw [Nat.toDigits_eq_if (by decide)]
  split
  · next h =>
    have hdiv : n / 10 = 0 := by omega
    have hmod : n % 10 = n := by omega
    rw [hdiv, hmod, Nat.toDigits_of_lt_base (by decide)]
    simp [List.replicate_succ']
  · simp

theorem digits_one {n : Nat} (h : n < 10) : digits 1 n = [Nat.digitChar n] := by
  rw [digits, Nat.toDigits_of_lt_base h]
  rfl

theorem digits_two {n : Nat} (h : n < 100) : digits 2 n = [Nat.digitChar (n / 10), Nat.digitChar (n % 10)] := by
  rw [digits_succ, digits_one (by omega)]
  rfl

theorem digits_four {n : Nat} : digits 4 n = digits 2 (n / 100) ++ digits 2 (n % 100) := by
  have hhigh : n % 100 / 10 = n / 10 % 10 := by omega
  have hlow : n % 100 % 10 = n % 10 := by omega
  rw [digits_succ, digits_succ, digits_two (n := n % 100) (by omega), Nat.div_div_eq_div_mul, List.append_assoc,
    hhigh, hlow]
  rfl

/-- A number that fits is written with as many digits as asked for, and they spell it. -/
theorem digits_spec {width n : Nat} (h : n < 10 ^ (width + 1)) :
    (digits (width + 1) n).length = width + 1 ∧ (∀ c ∈ digits (width + 1) n, isDigit c = true) ∧
      natOfDigits (digits (width + 1) n) = n := by
  induction width generalizing n with
  | zero =>
    rw [digits_one (by omega)]
    refine ⟨rfl, by simpa using isDigit_digitChar n (by omega), ?_⟩
    simpa [natOfDigits] using natOfDigits_snoc [] (d := n) (by omega)
  | succ width ih =>
    have hmod : n % 10 < 10 := Nat.mod_lt n (by decide)
    have hdiv : n / 10 < 10 ^ (width + 1) := by
      rw [Nat.div_lt_iff_lt_mul (by decide), ← Nat.pow_succ]
      exact h
    obtain ⟨hlength, hdigit, hvalue⟩ := ih hdiv
    rw [digits_succ, natOfDigits_snoc _ hmod, hvalue]
    refine ⟨by simp [hlength], fun c hc => ?_, by omega⟩
    rcases List.mem_append.1 hc with hc | hc
    · exact hdigit c hc
    · rw [List.mem_singleton.1 hc]
      exact isDigit_digitChar _ hmod

theorem lt_length_digits {width n : Nat} (h : 10 ^ (width + 1) ≤ n) : width + 1 < (digits (width + 1) n).length := by
  induction width generalizing n with
  | zero =>
    have hten : ¬ n < 10 := by omega
    have hrest : Nat.toDigits 10 (n / 10) ≠ [] := by
      rw [Nat.toDigits_eq_if (by decide)]
      split <;> simp
    rw [digits, Nat.toDigits_eq_if (by decide), if_neg hten]
    have hpos := List.length_pos_of_ne_nil hrest
    simp
    omega
  | succ width ih =>
    have hdiv : 10 ^ (width + 1) ≤ n / 10 := by
      rw [Nat.le_div_iff_mul_le (by decide), ← Nat.pow_succ]
      exact h
    have := ih hdiv
    rw [digits_succ, List.length_append, List.length_singleton]
    omega

theorem isDigit_of_mem_digits {width n : Nat} {c : Char} (h : c ∈ digits width n) : isDigit c = true := by
  rw [digits, List.mem_append] at h
  rcases h with h | h
  · rw [List.eq_of_mem_replicate h]
    decide
  · have hdigit : c.isDigit = true := Nat.isDigit_of_mem_toDigits (by decide) (by decide) h
    simp only [Char.isDigit, Bool.and_eq_true, decide_eq_true_eq, ge_iff_le] at hdigit
    simp only [isDigit, Bool.and_eq_true, decide_eq_true_eq]
    exact hdigit

/-- The zeros at the end of a text can be taken away and put back. -/
theorem exists_zeros (ds : List Char) :
    ∃ k, (ds.reverse.dropWhile (· == '0')).reverse ++ List.replicate k '0' = ds := by
  have hsplit := List.takeWhile_append_dropWhile (p := (· == '0')) (l := ds.reverse)
  have hzeros : ∀ c ∈ ds.reverse.takeWhile (· == '0'), c = '0' := fun c hc => by
    simpa using List.mem_takeWhile_imp hc
  generalize ds.reverse.takeWhile (· == '0') = zeros at hsplit hzeros
  refine ⟨zeros.length, ?_⟩
  rw [← List.reverse_replicate, ← List.eq_replicate_iff.2 ⟨rfl, hzeros⟩, ← List.reverse_append, hsplit,
    List.reverse_reverse]

end Instant

/-! ### Reading -/

namespace Timestamp

open Instant (digits)

section
variable {n : Nat} (rest : List Char)

theorem twoDigits_digits (h : n < 100) : twoDigits (digits 2 n ++ rest) = some (n, rest) := by
  have hhigh := digitIn?_digitChar (n / 10) (by omega)
  have hlow := digitIn?_digitChar (n % 10) (by omega)
  rw [Instant.digits_two h]
  simp only [List.cons_append, List.nil_append, twoDigits, hhigh, hlow]
  simp
  omega

theorem upToTwoDigits_digits (h : n < 100) : upToTwoDigits (digits 2 n ++ rest) = some (n, rest) := by
  have hhigh := digitIn?_digitChar (n / 10) (by omega)
  have hlow := digitIn?_digitChar (n % 10) (by omega)
  rw [Instant.digits_two h]
  simp only [List.cons_append, List.nil_append, upToTwoDigits, hhigh, hlow]
  simp
  omega

theorem fourDigits_digits (h : n < 10000) : fourDigits (digits 4 n ++ rest) = some (n, rest) := by
  rw [Instant.digits_four, List.append_assoc, fourDigits, twoDigits_digits _ (by omega)]
  simp [twoDigits_digits (n := n % 100) _ (by omega)]
  omega

end

/-- The digits after the last one written count as zeros. -/
theorem take_zeros {ds : List Char} {k : Nat} (h : (ds ++ List.replicate k '0').length = 9) :
    (ds ++ List.replicate 9 '0').take 9 = ds ++ List.replicate k '0' := by
  have hk : 9 = k + ds.length := by simpa [Nat.add_comm] using h.symm
  have hzeros : List.replicate 9 '0' = List.replicate k '0' ++ List.replicate ds.length '0' := by
    rw [List.replicate_append_replicate, ← hk]
  rw [hzeros, ← List.append_assoc]
  exact List.take_left' h

theorem fraction_fraction {nanos : Nat} (h : nanos < 1000000000) (rest : List Char) :
    fraction (Instant.fraction nanos ++ 'Z' :: rest) = (nanos, 'Z' :: rest) := by
  rw [Instant.fraction]
  split
  · next h0 => simp [fraction, h0]
  · next h0 =>
    obtain ⟨hlength, hdigit, hvalue⟩ := Instant.digits_spec (show nanos < 10 ^ (8 + 1) from h)
    obtain ⟨k, hk⟩ := Instant.exists_zeros (digits 9 nanos)
    rw [← hk] at hlength hdigit hvalue
    generalize ((digits 9 nanos).reverse.dropWhile (· == '0')).reverse = ds at hlength hdigit hvalue ⊢
    have hds : (ds ++ 'Z' :: rest).takeWhile isDigit = ds := by
      rw [List.takeWhile_append_of_pos fun c hc => hdigit c (List.mem_append_left _ hc)]
      exact List.append_nil ds
    have hne : ds ≠ [] := by
      rintro rfl
      obtain rfl : k = 9 := by simpa using hlength
      exact h0 hvalue.symm
    rw [List.cons_append, fraction]
    simp only [hds, take_zeros hlength, hvalue, List.drop_left]
    exact if_pos (by simp [hne])

theorem literal_cons (c : Char) (rest : List Char) : literal c (c :: rest) = some rest := if_pos rfl

section
variable {year month day hour minute second nanos : Nat} (rest : List Char)

theorem date_digits (hyear : year < 10000) (hmonth : month < 100) (hday : day < 100) :
    date twoDigits (digits 4 year ++ '-' :: (digits 2 month ++ '-' :: (digits 2 day ++ rest))) =
      some ((year : Int), month, day, rest) := by
  simp [date, fourDigits_digits _ hyear, literal_cons, twoDigits_digits _ hmonth, twoDigits_digits _ hday]

theorem clock_digits (hhour : hour < 100) (hminute : minute < 100) (hsecond : second < 100)
    (hnanos : nanos < 1000000000) :
    clock twoDigits (digits 2 hour ++ ':' :: (digits 2 minute ++ ':' :: (digits 2 second ++
      (Instant.fraction nanos ++ 'Z' :: rest)))) = some (hour, minute, second, nanos, 'Z' :: rest) := by
  simp [clock, upToTwoDigits_digits _ hhour, literal_cons, twoDigits_digits _ hminute, twoDigits_digits _ hsecond,
    fraction_fraction hnanos]

end

/-- A valid date of a year of four digits is read as the instant it denotes. -/
theorem dateTime_digits {year month day hour minute second nanos : Nat} (hyear : year < 10000)
    (hnanos : nanos < 1000000000) (hvalid : Calendar.isValid ⟨year, month, day, hour, minute, second, nanos⟩ = true) :
    dateTime twoDigits 'T' (digits 4 year ++ '-' :: (digits 2 month ++ '-' :: (digits 2 day ++
      'T' :: (digits 2 hour ++ ':' :: (digits 2 minute ++ ':' :: (digits 2 second ++
        (Instant.fraction nanos ++ ['Z']))))))) =
      some (.utc (.ofCivil ⟨year, month, day, hour, minute, second, nanos⟩ 0)) := by
  have hbounds := hvalid
  simp only [Calendar.isValid, Bool.and_eq_true, decide_eq_true_eq] at hbounds
  have hday := Calendar.daysIn_le year month
  rw [dateTime, date_digits _ hyear (by omega) (by omega)]
  simp [literal_cons, clock_digits _ (show hour < 100 by omega) (show minute < 100 by omega)
    (show second < 100 by omega) hnanos, offset, hvalid, Moment.utc]

/-! ### Texts that cannot be read -/

theorem rest_of_twoDigits {s rest : List Char} {n : Nat} (h : twoDigits s = some (n, rest)) : rest = s.drop 2 := by
  match s, h with
  | a :: b :: more, h =>
    simp only [twoDigits, Option.bind_eq_bind, Option.bind_eq_some_iff] at h
    obtain ⟨x, -, y, -, hn⟩ := h
    cases hn
    rfl

theorem rest_of_fourDigits {s rest : List Char} {n : Nat} (h : fourDigits s = some (n, rest)) : rest = s.drop 4 := by
  simp only [fourDigits, Option.bind_eq_bind, Option.bind_eq_some_iff, Prod.exists] at h
  obtain ⟨a, s', ha, b, s'', hb, hn⟩ := h
  cases hn
  rw [rest_of_twoDigits hb, rest_of_twoDigits ha, List.drop_drop]

theorem fraction_lt (s : List Char) : (fraction s).1 < 1000000000 := by
  unfold fraction
  split
  · simp only
    split
    · refine Nat.lt_of_lt_of_eq (natOfDigits_lt _) ?_
      simp
    · simp
  · simp

theorem nanos_lt_of_clock {number : Numbers} {s rest : List Char} {hour minute second nanos : Nat}
    (h : clock number s = some (hour, minute, second, nanos, rest)) : nanos < 1000000000 := by
  simp only [clock, Option.bind_eq_bind, Option.bind_eq_some_iff, Prod.exists] at h
  obtain ⟨_, _, -, _, -, _, _, -, _, -, _, s', -, h⟩ := h
  cases h
  exact fraction_lt s'

theorem nanos_lt_of_dateTime {number : Numbers} {separator : Char} {s : List Char} {m : Moment}
    (h : dateTime number separator s = some m) : m.instant.nanos < 1000000000 := by
  simp only [dateTime, Option.bind_eq_bind, Option.bind_eq_some_iff, Prod.exists] at h
  obtain ⟨_, _, _, _, -, _, -, _, _, _, _, _, hclock, _, _, -, h⟩ := h
  split at h
  · cases h
    exact nanos_lt_of_clock hclock
  · cases h

theorem date_minus (number : Numbers) (rest : List Char) : date number ('-' :: rest) = none := by
  cases rest <;> rfl

theorem date_long {n : Nat} (h : 9999 < n) (number : Numbers) (rest : List Char) :
    date number (digits 4 n ++ '-' :: rest) = none := by
  have hlength : 4 < (digits 4 n).length := Instant.lt_length_digits (show 10 ^ (3 + 1) ≤ n from h)
  rw [date]
  cases hfour : fourDigits (digits 4 n ++ '-' :: rest) with
  | none => rfl
  | some p =>
    -- The year is taken for its first four digits, and another digit stands where the hyphen should be.
    obtain ⟨year, s⟩ := p
    obtain ⟨c, more, hmore⟩ := List.exists_cons_of_ne_nil (List.drop_eq_nil_iff.not.2 (Nat.not_le.2 hlength))
    have hc : c ≠ '-' := by
      rintro rfl
      have hmem : '-' ∈ (digits 4 n).drop 4 := by rw [hmore]; exact List.mem_cons_self
      exact absurd (Instant.isDigit_of_mem_digits (List.mem_of_mem_drop hmem)) (by decide)
    have hs := rest_of_fourDigits hfour
    rw [List.drop_append_of_le_length (Nat.le_of_lt hlength), hmore, List.cons_append] at hs
    rw [hs]
    simp [literal, hc]

/-- The year of a date that can be read has four digits and no sign. -/
theorem date_yearDigits {year : Int} (h : ¬ (0 ≤ year ∧ year ≤ 9999)) (number : Numbers) (rest : List Char) :
    date number (Instant.yearDigits year ++ '-' :: rest) = none := by
  rw [Instant.yearDigits]
  split
  · exact date_minus number _
  · exact date_long (by omega) number rest

end Timestamp

/-- The year has four digits, and the nanoseconds are less than a second. -/
def Instant.Writable (t : Instant) : Prop :=
  (0 ≤ t.toCivil.year ∧ t.toCivil.year ≤ 9999) ∧ t.nanos < 1000000000

theorem Moment.parse?_render {t : Instant} (h : t.Writable) : parse? t.render = some (.utc t) := by
  obtain ⟨hyear, hnanos⟩ := h
  obtain ⟨hvalid, hcivil⟩ := t.toCivil_spec
  have hn : t.toCivil.nanos = t.nanos := rfl
  have hchars : t.render.toList = (utc t).renderChars := String.toList_ofList
  have hutc : (utc t).toCivil = t.toCivil := by rw [toCivil, utc, Int.add_zero]
  rw [parse?, hchars, renderChars, hutc]
  generalize t.toCivil = c at *
  obtain ⟨year, month, day, hour, minute, second, nanos⟩ := c
  obtain ⟨year, rfl⟩ := Int.eq_ofNat_of_zero_le hyear.1
  have hfour : year < 10000 := by
    simp only at hyear
    omega
  have hread := Timestamp.dateTime_digits hfour (by simp only at hn; omega) hvalid
  rw [hcivil] at hread
  rw [← hread]
  simp only [List.append_assoc, List.cons_append]
  rfl

theorem Moment.parse?_render_eq_none {t : Instant} (h : ¬ (0 ≤ t.toCivil.year ∧ t.toCivil.year ≤ 9999)) :
    parse? t.render = none := by
  have hchars : t.render.toList = (utc t).renderChars := String.toList_ofList
  have hutc : (utc t).toCivil = t.toCivil := by rw [toCivil, utc, Int.add_zero]
  rw [parse?, hchars, renderChars, hutc, Timestamp.dateTime]
  simp only [List.append_assoc, List.cons_append]
  rw [Timestamp.date_yearDigits h]
  rfl

theorem Moment.nanos_lt_of_parse? {s : String} {m : Moment} (h : parse? s = some m) :
    m.instant.nanos < 1000000000 := Timestamp.nanos_lt_of_dateTime h

end Octal
