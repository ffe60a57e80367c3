/-!
# Source text

Text is read and written as bytes, which need not be valid UTF-8. `Rune.decode` splits bytes into
runes: a rune is a character together with the bytes that spell it, and a byte that begins no valid
sequence is a rune of its own, showing the replacement character. No byte is lost, so cutting a
text between runes (see `Octal.Text.Blank`) never changes the bytes that are kept.
-/

namespace Octal

/-- Text as it is read and written. -/
abbrev Bytes := List UInt8

/-- The UTF-8 encoding of `s`. -/
def Bytes.ofString (s : String) : Bytes := s.toList.flatMap String.utf8EncodeChar

/-- A character and the bytes it was read from. -/
structure Rune where
  char : Char
  bytes : Bytes
deriving DecidableEq, Repr

namespace Rune

/-- How many bytes of the text the rune takes. -/
def width (r : Rune) : Nat := r.bytes.length

/-- The character shown for a byte that begins no valid sequence. -/
def replacement : Char := Char.ofNat 0xFFFD

def invalid (b : UInt8) : Rune := ⟨replacement, [b]⟩

/-- A byte that continues a sequence. -/
def isContinuation (b : UInt8) : Bool := 0x80 ≤ b && b ≤ 0xBF

/-- The six bits that a continuation byte carries. -/
def payload (b : UInt8) : Nat := b.toNat % 64

/-- The least second byte after `b`: it excludes spellings longer than needed. -/
def secondMin (b : UInt8) : UInt8 := if b = 0xE0 then 0xA0 else if b = 0xF0 then 0x90 else 0x80

/-- The greatest second byte after `b`: it excludes surrogates and code points above U+10FFFF. -/
def secondMax (b : UInt8) : UInt8 := if b = 0xED then 0x9F else if b = 0xF4 then 0x8F else 0xBF

def isSecond (b b₁ : UInt8) : Bool := secondMin b ≤ b₁ && b₁ ≤ secondMax b

/-- The rune at the front of `b :: rest`. -/
def first (b : UInt8) (rest : Bytes) : Rune :=
  if b < 0x80 then ⟨Char.ofNat b.toNat, [b]⟩
  else if b < 0xC2 then invalid b
  else if b < 0xE0 then
    match rest with
    | b₁ :: _ =>
      if isSecond b b₁ then ⟨Char.ofNat (b.toNat % 32 * 64 + payload b₁), [b, b₁]⟩ else invalid b
    | _ => invalid b
  else if b < 0xF0 then
    match rest with
    | b₁ :: b₂ :: _ =>
      if isSecond b b₁ && isContinuation b₂ then
        ⟨Char.ofNat ((b.toNat % 16 * 64 + payload b₁) * 64 + payload b₂), [b, b₁, b₂]⟩
      else invalid b
    | _ => invalid b
  else if b < 0xF5 then
    match rest with
    | b₁ :: b₂ :: b₃ :: _ =>
      if isSecond b b₁ && isContinuation b₂ && isContinuation b₃ then
        ⟨Char.ofNat (((b.toNat % 8 * 64 + payload b₁) * 64 + payload b₂) * 64 + payload b₃),
          [b, b₁, b₂, b₃]⟩
      else invalid b
    | _ => invalid b
  else invalid b

/-- The runes of a text whose first `skip` bytes belong to a rune already read. -/
def decodeFrom : Nat → Bytes → List Rune
  | _, [] => []
  | 0, b :: rest => first b rest :: decodeFrom ((first b rest).width - 1) rest
  | skip + 1, _ :: rest => decodeFrom skip rest

def decode (text : Bytes) : List Rune := decodeFrom 0 text

/-- The bytes that a list of runes spells. -/
def encode (runes : List Rune) : Bytes := runes.flatMap Rune.bytes

theorem first_bytes (b : UInt8) (rest : Bytes) :
    ∃ tail, (first b rest).bytes = b :: tail ∧ tail <+: rest := by
  unfold first invalid
  repeat' split
  all_goals first
    | exact ⟨[], rfl, List.nil_prefix⟩
    | exact ⟨_, rfl, by simp [List.cons_prefix_cons]⟩

theorem width_first_pos (b : UInt8) (rest : Bytes) : 0 < (first b rest).width := by
  obtain ⟨tail, h, -⟩ := first_bytes b rest
  simp [width, h]

theorem encode_decodeFrom (skip : Nat) (text : Bytes) :
    encode (decodeFrom skip text) = text.drop skip := by
  induction text generalizing skip with
  | nil => simp [decodeFrom, encode]
  | cons b rest ih =>
    cases skip with
    | succ skip => simpa [decodeFrom] using ih skip
    | zero =>
      obtain ⟨tail, h, k, hk⟩ := first_bytes b rest
      have := ih tail.length
      simp only [decodeFrom, encode, List.flatMap_cons, List.drop_zero, width, h,
        List.length_cons, Nat.add_sub_cancel] at this ⊢
      rw [this, ← hk]
      simp

/-- Decoding loses no byte. -/
theorem encode_decode (text : Bytes) : encode (decode text) = text := by
  simp [decode, encode_decodeFrom]

end Rune

end Octal
