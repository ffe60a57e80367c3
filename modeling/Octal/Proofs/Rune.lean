import Octal.Text.Rune

/-!
# Runes of encoded text

Decoding gives back the characters of an encoded string (`Rune.decode_ofString`). And since a byte
below 0x80 is always a rune of its own, whatever stands before it, a text may be cut there and its
parts decoded one by one (`Rune.decode_append_ascii`). A byte that begins no valid sequence may begin one before
other bytes, but every other rune is read the same whatever follows (`Rune.whole_of_mem_decode`), and a character
of ASCII is the one byte that encodes it (`Rune.bytes_of_mem_decode`). So a text that is cut off anywhere has the runes
of the whole text, up to bytes at its end that begin one but do not make it (`Rune.exists_decodeFrom_append`).
-/

namespace Octal.Rune

theorem decodeFrom_append (bs rest : Bytes) : decodeFrom bs.length (bs ++ rest) = decode rest := by
  induction bs with
  | nil => rfl
  | cons b bs ih => exact ih

theorem decode_cons {b : UInt8} (bs : Bytes) {rest : Bytes} {c : Char}
    (h : first b (bs ++ rest) = ⟨c, b :: bs⟩) : decode (b :: bs ++ rest) = ⟨c, b :: bs⟩ :: decode rest := by
  show first b (bs ++ rest) :: decodeFrom ((first b (bs ++ rest)).width - 1) (bs ++ rest) = _
  rw [h, ← decodeFrom_append bs rest]
  rfl

theorem width_first_le (b : UInt8) (rest : Bytes) : (first b rest).width - 1 ≤ rest.length := by
  obtain ⟨tail, htail, hprefix⟩ := first_bytes b rest
  have := hprefix.length_le
  simp only [width, htail, List.length_cons]
  omega

/-! ### Encoded characters -/

theorem isSecond_iff {b b₁ : UInt8} : isSecond b b₁ = true ↔
    (if b.toNat = 0xE0 then 0xA0 else if b.toNat = 0xF0 then 0x90 else 0x80) ≤ b₁.toNat ∧
      b₁.toNat ≤ (if b.toNat = 0xED then 0x9F else if b.toNat = 0xF4 then 0x8F else 0xBF) := by
  simp [isSecond, secondMin, secondMax, UInt8.le_iff_toNat_le, ← UInt8.toNat_inj, apply_ite UInt8.toNat]

theorem isContinuation_iff {b : UInt8} : isContinuation b = true ↔ 0x80 ≤ b.toNat ∧ b.toNat ≤ 0xBF := by
  simp only [isContinuation, Bool.and_eq_true, decide_eq_true_eq, UInt8.le_iff_toNat_le]
  rfl

theorem not_lt_of_le {b : UInt8} (c : UInt8) (h : c.toNat ≤ b.toNat) : ¬ b < c := by
  rw [UInt8.lt_iff_toNat_lt]
  omega

theorem lt_of_toNat_lt {b c : UInt8} (h : b.toNat < c.toNat) : b < c := UInt8.lt_iff_toNat_lt.2 h

section
variable {b b₁ b₂ b₃ : UInt8} (rest : Bytes)

theorem first_one (h : b.toNat < 0x80) : first b rest = ⟨Char.ofNat b.toNat, [b]⟩ := by
  unfold first
  rw [if_pos (lt_of_toNat_lt h)]

theorem first_two (h : 0xC2 ≤ b.toNat) (h' : b.toNat < 0xE0) (h₁ : isSecond b b₁ = true) :
    first b (b₁ :: rest) = ⟨Char.ofNat (b.toNat % 32 * 64 + payload b₁), [b, b₁]⟩ := by
  unfold first
  rw [if_neg (not_lt_of_le 0x80 (show 0x80 ≤ b.toNat by omega)), if_neg (not_lt_of_le 0xC2 h), if_pos (lt_of_toNat_lt h')]
  exact if_pos h₁

theorem first_three (h : 0xE0 ≤ b.toNat) (h' : b.toNat < 0xF0) (h₁ : isSecond b b₁ = true)
    (h₂ : isContinuation b₂ = true) : first b (b₁ :: b₂ :: rest) =
      ⟨Char.ofNat ((b.toNat % 16 * 64 + payload b₁) * 64 + payload b₂), [b, b₁, b₂]⟩ := by
  unfold first
  rw [if_neg (not_lt_of_le 0x80 (show 0x80 ≤ b.toNat by omega)), if_neg (not_lt_of_le 0xC2 (show 0xC2 ≤ b.toNat by omega)),
    if_neg (not_lt_of_le 0xE0 h), if_pos (lt_of_toNat_lt h')]
  simp only [h₁, h₂, Bool.and_true, if_true]

theorem first_four (h : 0xF0 ≤ b.toNat) (h' : b.toNat < 0xF5) (h₁ : isSecond b b₁ = true)
    (h₂ : isContinuation b₂ = true) (h₃ : isContinuation b₃ = true) : first b (b₁ :: b₂ :: b₃ :: rest) =
      ⟨Char.ofNat (((b.toNat % 8 * 64 + payload b₁) * 64 + payload b₂) * 64 + payload b₃),
        [b, b₁, b₂, b₃]⟩ := by
  unfold first
  rw [if_neg (not_lt_of_le 0x80 (show 0x80 ≤ b.toNat by omega)), if_neg (not_lt_of_le 0xC2 (show 0xC2 ≤ b.toNat by omega)),
    if_neg (not_lt_of_le 0xE0 (show 0xE0 ≤ b.toNat by omega)), if_neg (not_lt_of_le 0xF0 h), if_pos (lt_of_toNat_lt h')]
  simp only [h₁, h₂, h₃, Bool.and_true, if_true]

end

theorem toNat_ofNat {n : Nat} (h : n < 256) : (UInt8.ofNat n).toNat = n := by
  rw [UInt8.toNat_ofNat']
  exact Nat.mod_eq_of_lt h

/-- A character is the first rune of any text that begins with its encoding. -/
theorem decode_utf8EncodeChar (c : Char) (rest : Bytes) :
    decode (String.utf8EncodeChar c ++ rest) = ⟨c, String.utf8EncodeChar c⟩ :: decode rest := by
  have hc : Char.ofNat c.val.toNat = c := Char.ofNat_toNat c
  have hv : c.val.toNat < 0xD800 ∨ 0xDFFF < c.val.toNat ∧ c.val.toNat < 0x110000 := c.valid
  simp only [String.utf8EncodeChar]
  generalize c.val.toNat = n at hc hv
  split
  · next h =>
    have h₀ := toNat_ofNat (n := n) (by omega)
    refine decode_cons [] ?_
    rw [first_one _ (by omega), h₀, hc]
  split
  · next h h' =>
    have h₀ := toNat_ofNat (n := n / 64 % 32 + 192) (by omega)
    have h₁ := toNat_ofNat (n := n % 64 + 128) (by omega)
    refine decode_cons [_] ?_
    rw [List.singleton_append, first_two, payload, h₀, h₁,
      show (n / 64 % 32 + 192) % 32 * 64 + (n % 64 + 128) % 64 = n by omega, hc]
    · omega
    · omega
    · rw [isSecond_iff, h₀, h₁]
      constructor <;> (repeat' split) <;> omega
  split
  · next h h' =>
    have h₀ := toNat_ofNat (n := n / 4096 % 16 + 224) (by omega)
    have h₁ := toNat_ofNat (n := n / 64 % 64 + 128) (by omega)
    have h₂ := toNat_ofNat (n := n % 64 + 128) (by omega)
    refine decode_cons [_, _] ?_
    rw [List.cons_append, List.singleton_append, first_three, payload, payload, h₀, h₁, h₂,
      show ((n / 4096 % 16 + 224) % 16 * 64 + (n / 64 % 64 + 128) % 64) * 64 + (n % 64 + 128) % 64 = n
        by omega, hc]
    · omega
    · omega
    · rw [isSecond_iff, h₀, h₁]
      constructor <;> (repeat' split) <;> omega
    · rw [isContinuation_iff]
      omega
  · next h h' =>
    have h₀ := toNat_ofNat (n := n / 262144 % 8 + 240) (by omega)
    have h₁ := toNat_ofNat (n := n / 4096 % 64 + 128) (by omega)
    have h₂ := toNat_ofNat (n := n / 64 % 64 + 128) (by omega)
    have h₃ := toNat_ofNat (n := n % 64 + 128) (by omega)
    refine decode_cons [_, _, _] ?_
    rw [List.cons_append, List.cons_append, List.singleton_append, first_four, payload, payload, payload,
      h₀, h₁, h₂, h₃, show (((n / 262144 % 8 + 240) % 8 * 64 + (n / 4096 % 64 + 128) % 64) * 64 +
        (n / 64 % 64 + 128) % 64) * 64 + (n % 64 + 128) % 64 = n by omega, hc]
    · omega
    · omega
    · rw [isSecond_iff, h₀, h₁]
      constructor <;> (repeat' split) <;> omega
    · rw [isContinuation_iff]
      omega
    · rw [isContinuation_iff]
      omega

theorem decode_ofString (s : String) :
    decode (Bytes.ofString s) = s.toList.map fun c => ⟨c, String.utf8EncodeChar c⟩ := by
  unfold Bytes.ofString
  induction s.toList with
  | nil => rfl
  | cons c cs ih => rw [List.flatMap_cons, decode_utf8EncodeChar, ih, List.map_cons]

/-! ### Cutting before a byte of its own -/

section
variable {b x : UInt8} (hx : x.toNat < 0x80)
include hx

theorem not_isSecond : isSecond b x = false := by
  rw [← Bool.not_eq_true, isSecond_iff]
  rintro ⟨h, -⟩
  revert h
  (repeat' split) <;> omega

theorem not_isContinuation : isContinuation x = false := by
  rw [← Bool.not_eq_true, isContinuation_iff]
  omega

/-- The byte `x` is no part of the rune before it. -/
theorem first_append_ascii (a rest : Bytes) : first b (a ++ x :: rest) = first b a := by
  have h₁ := not_isSecond (b := b) hx
  have h₂ := not_isContinuation hx
  match a with
  | [] => cases rest with
    | nil => simp [first, h₁]
    | cons y rest => cases rest <;> simp [first, h₁]
  | [y] => cases rest <;> simp [first, h₂]
  | [y, z] => simp [first, h₂]
  | y :: z :: w :: a => simp [first]

theorem decodeFrom_append_ascii (a rest : Bytes) {skip : Nat} (h : skip ≤ a.length) :
    decodeFrom skip (a ++ x :: rest) = decodeFrom skip a ++ decode (x :: rest) := by
  induction a generalizing skip with
  | nil =>
    obtain rfl : skip = 0 := by simpa using h
    rfl
  | cons b a ih =>
    cases skip with
    | succ skip => exact ih (by simpa using h)
    | zero =>
      rw [List.cons_append, decodeFrom, decodeFrom, first_append_ascii hx, ih (width_first_le b a), List.cons_append]

theorem decode_append_ascii (a rest : Bytes) :
    decode (a ++ x :: rest) = decode a ++ ⟨Char.ofNat x.toNat, [x]⟩ :: decode rest := by
  have h : decode (x :: rest) = ⟨Char.ofNat x.toNat, [x]⟩ :: decode rest :=
    decode_cons [] (first_one _ hx)
  rw [← h]
  exact decodeFrom_append_ascii hx a rest (Nat.zero_le _)

end

/-! ### Runes that do not depend on what follows -/

/-- The bytes of the rune are read as that rune whatever follows them. -/
def Whole (r : Rune) : Prop := ∀ rest, decode (r.bytes ++ rest) = r :: decode rest

theorem whole_of_first {b : UInt8} {c : Char} (tail : Bytes) (h : ∀ rest, first b (tail ++ rest) = ⟨c, b :: tail⟩) :
    Whole ⟨c, b :: tail⟩ := fun rest => decode_cons tail (h rest)

/-- A rune is whole unless it is a byte that begins no valid sequence. -/
theorem whole_first {b : UInt8} {rest : Bytes} (h : (first b rest).char ≠ replacement) : (first b rest).Whole := by
  have lt {c : UInt8} (h : b < c) : b.toNat < c.toNat := UInt8.lt_iff_toNat_lt.1 h
  have le {c : UInt8} (h : ¬ b < c) : c.toNat ≤ b.toNat := Nat.le_of_not_lt fun hlt => h (lt_of_toNat_lt hlt)
  revert h
  fun_cases first b rest <;> intro h
  -- What remains are the valid sequences of one to four bytes.
  all_goals try exact absurd rfl h
  case case1 h₀ => exact whole_of_first [] fun rest => first_one rest (lt h₀)
  case case3 hC2 hE0 b₁ _ h₁ => exact whole_of_first [b₁] fun rest => first_two rest (le hC2) (lt hE0) h₁
  case case6 hE0 hF0 b₁ b₂ _ h₁ =>
    obtain ⟨h₁, h₂⟩ := Bool.and_eq_true_iff.1 h₁
    exact whole_of_first [b₁, b₂] fun rest => first_three rest (le hE0) (lt hF0) h₁ h₂
  case case9 hF0 hF5 b₁ b₂ b₃ _ h₁ =>
    obtain ⟨h₁, h₃⟩ := Bool.and_eq_true_iff.1 h₁
    obtain ⟨h₁, h₂⟩ := Bool.and_eq_true_iff.1 h₁
    exact whole_of_first [b₁, b₂, b₃] fun rest => first_four rest (le hF0) (lt hF5) h₁ h₂ h₃

theorem exists_first_of_mem_decodeFrom {r : Rune} {skip : Nat} {text : Bytes} (h : r ∈ decodeFrom skip text) :
    ∃ b rest, r = first b rest := by
  induction text generalizing skip with
  | nil => cases h
  | cons b rest ih =>
    cases skip with
    | succ skip => exact ih h
    | zero =>
      rcases List.mem_cons.1 h with rfl | h
      · exact ⟨b, rest, rfl⟩
      · exact ih h

theorem whole_of_mem_decode {r : Rune} {text : Bytes} (h : r ∈ decode text) (hc : r.char ≠ replacement) : r.Whole := by
  obtain ⟨b, rest, rfl⟩ := exists_first_of_mem_decodeFrom h
  exact whole_first hc

theorem width_pos_of_mem_decode {r : Rune} {text : Bytes} (h : r ∈ decode text) : 0 < r.width := by
  obtain ⟨b, rest, rfl⟩ := exists_first_of_mem_decodeFrom h
  exact width_first_pos b rest

theorem decode_encode {runes : List Rune} (h : ∀ r ∈ runes, r.Whole) : decode (encode runes) = runes := by
  induction runes with
  | nil => rfl
  | cons r runes ih =>
    obtain ⟨hr, h⟩ := List.forall_mem_cons.1 h
    rw [encode, List.flatMap_cons, hr, ← encode, ih h]

/-! ### Runes of one byte -/

theorem toNat_char {n : Nat} (h : n.isValidChar) : (Char.ofNat n).toNat = n := by
  unfold Char.ofNat
  rw [dif_pos h]
  rfl

theorem not_toNat_lt_of_valid {n : Nat} (hn : 0x80 ≤ n) (hvalid : n < 0xD800 ∨ 0xDFFF < n ∧ n < 0x110000) :
    ¬ (Char.ofNat n).toNat < 0x80 := by
  rw [toNat_char hvalid]
  omega

theorem utf8EncodeChar_ascii {c : Char} (hc : c.toNat < 0x80) : String.utf8EncodeChar c = [UInt8.ofNat c.toNat] := by
  simp only [String.utf8EncodeChar]
  exact if_pos (show c.val.toNat ≤ 0x7F from Nat.lt_succ_iff.1 hc)

theorem utf8EncodeChar_ofNat {b : UInt8} (hb : b.toNat < 0x80) :
    String.utf8EncodeChar (Char.ofNat b.toNat) = [b] := by
  have hval : (Char.ofNat b.toNat).val.toNat = b.toNat := toNat_char (.inl (by omega))
  simp only [String.utf8EncodeChar, hval]
  rw [if_pos (by omega), UInt8.ofNat_toNat]

/-- A character of ASCII is one byte, since longer sequences spell other characters. -/
theorem bytes_first {b : UInt8} {rest : Bytes} (h : (first b rest).char.toNat < 0x80) :
    (first b rest).bytes = String.utf8EncodeChar (first b rest).char := by
  have lt {c : UInt8} (h : b < c) : b.toNat < c.toNat := UInt8.lt_iff_toNat_lt.1 h
  have le {c : UInt8} (h : ¬ b < c) : c.toNat ≤ b.toNat := Nat.le_of_not_lt fun hlt => h (lt_of_toNat_lt hlt)
  have hinvalid : ¬ (invalid b).char.toNat < 0x80 := by
    show ¬ replacement.toNat < 0x80
    decide
  revert h
  fun_cases first b rest <;> intro h
  all_goals try exact absurd h hinvalid
  case case1 h₀ => exact (utf8EncodeChar_ofNat (lt h₀)).symm
  case case3 hC2 hE0 b₁ _ h₁ =>
    have hb : 0xC2 ≤ b.toNat := le hC2
    have hb' : b.toNat < 0xE0 := lt hE0
    refine absurd h (not_toNat_lt_of_valid ?_ (.inl ?_))
    · omega
    · unfold payload
      omega
  case case6 hE0 hF0 b₁ b₂ _ h₁ =>
    obtain ⟨h₁, -⟩ := Bool.and_eq_true_iff.1 h₁
    have hb : 0xE0 ≤ b.toNat := le hE0
    have hb' : b.toNat < 0xF0 := lt hF0
    obtain ⟨hmin, hmax⟩ := isSecond_iff.1 h₁
    refine absurd h (not_toNat_lt_of_valid ?_ ?_)
    · unfold payload
      (repeat' split at hmin) <;> (repeat' split at hmax) <;> omega
    · unfold payload
      (repeat' split at hmin) <;> (repeat' split at hmax) <;> omega
  case case9 hF0 hF5 b₁ b₂ b₃ _ h₁ =>
    obtain ⟨h₁, -⟩ := Bool.and_eq_true_iff.1 h₁
    obtain ⟨h₁, -⟩ := Bool.and_eq_true_iff.1 h₁
    have hb : 0xF0 ≤ b.toNat := le hF0
    have hb' : b.toNat < 0xF5 := lt hF5
    obtain ⟨hmin, hmax⟩ := isSecond_iff.1 h₁
    refine absurd h (not_toNat_lt_of_valid ?_ (.inr ?_))
    · unfold payload
      (repeat' split at hmin) <;> (repeat' split at hmax) <;> omega
    · unfold payload
      (repeat' split at hmin) <;> (repeat' split at hmax) <;> omega

theorem bytes_of_mem_decode {r : Rune} {text : Bytes} (h : r ∈ decode text) (hr : r.char.toNat < 0x80) :
    r.bytes = String.utf8EncodeChar r.char := by
  obtain ⟨b, rest, rfl⟩ := exists_first_of_mem_decodeFrom h
  exact bytes_first hr

/-! ### Cutting anywhere -/

theorem isContinuation_of_isSecond {b x : UInt8} (h : isSecond b x = true) : isContinuation x = true := by
  obtain ⟨hmin, hmax⟩ := isSecond_iff.1 h
  rw [isContinuation_iff]
  constructor
  · refine Nat.le_trans ?_ hmin
    (repeat' split) <;> omega
  · refine Nat.le_trans hmax ?_
    (repeat' split) <;> omega

/-- A byte that begins no sequence, and bytes that only continue one. -/
theorem char_of_first_invalid {b : UInt8} {a : Bytes} (hb : first b a = invalid b)
    (ha : ∀ x ∈ a, isContinuation x = true) : ∀ r ∈ decode (b :: a), r.char = replacement := by
  have hd : decode (b :: a) = invalid b :: decode a := decode_cons [] hb
  rw [hd]
  refine List.forall_mem_cons.2 ⟨rfl, ?_⟩
  clear hb hd
  induction a with
  | nil => exact List.forall_mem_nil _
  | cons x a ih =>
    obtain ⟨hx, ha⟩ := List.forall_mem_cons.1 ha
    obtain ⟨hmin, hmax⟩ := isContinuation_iff.1 hx
    have hfirst : first x a = invalid x := by
      unfold first
      rw [if_neg (not_lt_of_le 0x80 hmin), if_pos (lt_of_toNat_lt (Nat.lt_of_le_of_lt hmax (by decide)))]
    have hd : decode (x :: a) = invalid x :: decode a := decode_cons [] hfirst
    rw [hd]
    exact List.forall_mem_cons.2 ⟨rfl, ih ha⟩

/-- The bytes begin the sequence of a character, and the sequence goes on after them. -/
def Begins (bytes : Bytes) : Prop :=
  ∃ c more, c ≠ replacement ∧ bytes ≠ [] ∧ more ≠ [] ∧ decode (bytes ++ more) = [⟨c, bytes ++ more⟩]

section
variable {b b₁ b₂ : UInt8}

theorem begins_of_first {a : Bytes} (more : Bytes) {c : Char} (hmore : more ≠ []) (hc : c ≠ replacement)
    (h : first b (a ++ more) = ⟨c, b :: (a ++ more)⟩) : Begins (b :: a) := by
  refine ⟨c, more, hc, List.cons_ne_nil _ _, hmore, ?_⟩
  have hd : decode (b :: (a ++ more) ++ []) = [⟨c, b :: (a ++ more)⟩] :=
    decode_cons (a ++ more) (by rw [List.append_nil]; exact h)
  rwa [List.append_nil] at hd

theorem isSecond_secondMin (b : UInt8) : isSecond b (secondMin b) = true := by
  unfold isSecond secondMin secondMax
  by_cases hE0 : b = 0xE0
  · rw [hE0]
    decide
  by_cases hF0 : b = 0xF0
  · rw [hF0]
    decide
  rw [if_neg hE0, if_neg hF0]
  (repeat' split) <;> decide

/-- The last six bits of the replacement character are not all zero. -/
theorem ofNat_ne_replacement {n : Nat} (h : n % 64 = 0) : Char.ofNat n ≠ replacement := by
  intro hn
  have htoNat : (Char.ofNat n).toNat = 0xFFFD := by
    rw [hn]
    decide
  by_cases hvalid : n.isValidChar
  · rw [toNat_char hvalid] at htoNat
    omega
  · rw [Char.ofNat, dif_neg hvalid] at htoNat
    exact absurd htoNat (by decide)

-- A sequence that has begun is completed by the least second byte and by bytes without a payload.

theorem begins_one (h : 0xC2 ≤ b.toNat) (h' : b.toNat < 0xF5) : Begins [b] := by
  by_cases hE0 : b.toNat < 0xE0
  · have hb₁ : isSecond b 0x80 = true := by
      rw [isSecond_iff]
      constructor <;> (repeat' split) <;> first | omega | decide
    exact begins_of_first [0x80] (List.cons_ne_nil _ _) (ofNat_ne_replacement (by simp [payload]))
      (first_two [] h hE0 hb₁)
  by_cases hF0 : b.toNat < 0xF0
  · exact begins_of_first [secondMin b, 0x80] (List.cons_ne_nil _ _) (ofNat_ne_replacement (by simp [payload]))
      (first_three [] (Nat.le_of_not_lt hE0) hF0 (isSecond_secondMin b) rfl)
  · exact begins_of_first [secondMin b, 0x80, 0x80] (List.cons_ne_nil _ _) (ofNat_ne_replacement (by simp [payload]))
      (first_four [] (Nat.le_of_not_lt hF0) h' (isSecond_secondMin b) rfl rfl)

theorem begins_two (h : 0xE0 ≤ b.toNat) (h' : b.toNat < 0xF5) (h₁ : isSecond b b₁ = true) : Begins [b, b₁] := by
  by_cases hF0 : b.toNat < 0xF0
  · exact begins_of_first [0x80] (List.cons_ne_nil _ _) (ofNat_ne_replacement (by simp [payload]))
      (first_three [] h hF0 h₁ rfl)
  · exact begins_of_first [0x80, 0x80] (List.cons_ne_nil _ _) (ofNat_ne_replacement (by simp [payload]))
      (first_four [] (Nat.le_of_not_lt hF0) h' h₁ rfl rfl)

theorem begins_three (h : 0xF0 ≤ b.toNat) (h' : b.toNat < 0xF5) (h₁ : isSecond b b₁ = true)
    (h₂ : isContinuation b₂ = true) : Begins [b, b₁, b₂] :=
  begins_of_first [0x80] (List.cons_ne_nil _ _) (ofNat_ne_replacement (by simp [payload]))
    (first_four [] h h' h₁ h₂ rfl)

end

/-- More text changes the first rune only where all the text there was is the beginning of one. -/
theorem first_append (b : UInt8) (a : Bytes) :
    (∀ rest, first b (a ++ rest) = first b a) ∨ Begins (b :: a) ∧ ∀ r ∈ decode (b :: a), r.char = replacement := by
  have lt {c : UInt8} (h : b < c) : b.toNat < c.toNat := UInt8.lt_iff_toNat_lt.1 h
  have le {c : UInt8} (h : ¬ b < c) : c.toNat ≤ b.toNat := Nat.le_of_not_lt fun hlt => h (lt_of_toNat_lt hlt)
  by_cases h80 : b < 0x80
  · exact .inl fun rest => by simp [first, h80]
  by_cases hC2 : b < 0xC2
  · exact .inl fun rest => by simp [first, h80, hC2]
  by_cases hF5 : ¬ b < 0xF5
  · have hE0 : ¬ b < 0xE0 := fun h => hF5 (UInt8.lt_trans h (by decide))
    have hF0 : ¬ b < 0xF0 := fun h => hF5 (UInt8.lt_trans h (by decide))
    exact .inl fun rest => by simp [first, h80, hC2, hE0, hF0, hF5]
  replace hF5 : b < 0xF5 := Decidable.not_not.1 hF5
  -- A longer sequence has begun, and the text may end before the sequence does.
  have cut (hb : first b a = invalid b) (ha : ∀ x ∈ a, isContinuation x = true) (hbegins : Begins (b :: a)) :
      (∀ rest, first b (a ++ rest) = first b a) ∨ Begins (b :: a) ∧ ∀ r ∈ decode (b :: a), r.char = replacement :=
    .inr ⟨hbegins, char_of_first_invalid hb ha⟩
  match a with
  | [] => exact cut (by simp [first, h80, hC2]) (List.forall_mem_nil _) (begins_one (le hC2) (lt hF5))
  | [y] =>
    by_cases hE0 : b < 0xE0
    · exact .inl fun rest => by simp [first, h80, hC2, hE0]
    cases hy : isSecond b y with
    | true =>
      exact cut (by simp [first, h80, hC2, hE0]) (by simpa using isContinuation_of_isSecond hy)
        (begins_two (le hE0) (lt hF5) hy)
    | false =>
      refine .inl fun rest => ?_
      rcases rest with - | ⟨z, - | ⟨w, rest⟩⟩ <;> simp [first, h80, hC2, hE0, hy]
  | [y, z] =>
    by_cases hF0 : b < 0xF0
    · exact .inl fun rest => by simp [first, h80, hC2, hF0]
    cases hyz : isSecond b y && isContinuation z with
    | true =>
      obtain ⟨hy, hz⟩ := Bool.and_eq_true_iff.1 hyz
      have hE0 : ¬ b < 0xE0 := fun h => hF0 (UInt8.lt_trans h (by decide))
      exact cut (by simp [first, h80, hC2, hE0, hF0]) (by simp [isContinuation_of_isSecond hy, hz])
        (begins_three (le hF0) (lt hF5) hy hz)
    | false =>
      refine .inl fun rest => ?_
      cases rest <;> simp [first, h80, hC2, hF0, hyz]
  | y :: z :: w :: a => exact .inl fun rest => by simp [first]

/-- A text has the same first runes whatever follows it. Bytes at its end can begin a rune that goes on after it, and
are no runes by themselves. -/
theorem exists_decodeFrom_append (a : Bytes) {skip : Nat} (h : skip ≤ a.length) : ∃ runes tail,
    (tail = [] ∨ Begins tail ∧ ∀ r ∈ decode tail, r.char = replacement) ∧
      ∀ rest, decodeFrom skip (a ++ rest) = runes ++ decode (tail ++ rest) := by
  induction a generalizing skip with
  | nil =>
    obtain rfl : skip = 0 := by simpa using h
    exact ⟨[], [], .inl rfl, fun _ => rfl⟩
  | cons b a ih =>
    cases skip with
    | succ skip => exact ih (by simpa using h)
    | zero =>
      rcases first_append b a with hfirst | hbegins
      · obtain ⟨runes, tail, htail, hdecode⟩ := ih (width_first_le b a)
        refine ⟨first b a :: runes, tail, htail, fun rest => ?_⟩
        rw [List.cons_append, decodeFrom, hfirst, hdecode, List.cons_append]
      · exact ⟨[], b :: a, .inr hbegins, fun _ => rfl⟩

/-- Texts that begin alike have the same first runes. The one that ends there can have bytes after these that begin
or continue a rune of the other. -/
theorem decodeFrom_append_common (a rest : Bytes) {skip : Nat} (h : skip ≤ a.length) : ∃ runes tail more,
    decodeFrom skip a = runes ++ tail ∧ decodeFrom skip (a ++ rest) = runes ++ more ∧
      ∀ r ∈ tail, r.char = replacement := by
  obtain ⟨runes, tail, htail, hdecode⟩ := exists_decodeFrom_append a h
  refine ⟨runes, decode tail, _, ?_, hdecode rest, ?_⟩
  · have hcut := hdecode []
    rwa [List.append_nil, List.append_nil] at hcut
  · rcases htail with rfl | ⟨-, htail⟩
    · exact List.forall_mem_nil _
    · exact htail

end Octal.Rune
