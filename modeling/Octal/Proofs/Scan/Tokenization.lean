import Mathlib
import Octal.Proofs.Scan.Munch

/-!
# Tokens and the text they come from

What the tokens of a text are can be said without a scanner (`Tokenization`): they have their texts where they say, one
after the other, with white space around them, and none of them stops too early. A scan without errors gives such
tokens, and there are no others.
-/

namespace Octal

open Scan Text

/-! ### Runes by their offsets -/

namespace Rune

theorem length_encode_eq_zero {runes : List Rune} (hw : ∀ r ∈ runes, 0 < r.width) (h : (encode runes).length = 0) :
    runes = [] := by
  cases runes with
  | nil => rfl
  | cons r runes =>
    have hr : 0 < r.width := hw r List.mem_cons_self
    have hlength : (encode (r :: runes)).length = r.width + (encode runes).length := List.length_append
    omega

/-- The offsets between runes, from one on to the next. -/
theorem exists_append_of_length_le {before after before' after' : List Rune} (hw : ∀ r ∈ before ++ after, 0 < r.width)
    (heq : before ++ after = before' ++ after') (hle : (encode before).length ≤ (encode before').length) :
    ∃ between, before' = before ++ between ∧ after = between ++ after' := by
  rcases List.append_eq_append_iff.1 heq with ⟨between, hbefore, hafter⟩ | ⟨between, hbefore, hafter⟩
  · exact ⟨between, hbefore, hafter⟩
  · have hzero : (encode between).length = 0 := by
      rw [hbefore, length_encode_append] at hle
      omega
    have hbetween : between = [] := by
      refine length_encode_eq_zero (fun r hr => hw r ?_) hzero
      rw [hbefore]
      exact List.mem_append_left _ (List.mem_append_right _ hr)
    subst hbetween
    rw [List.append_nil] at hbefore
    exact ⟨[], by rw [hbefore, List.append_nil], hafter.symm⟩

theorem append_inj_of_length {before after before' after' : List Rune} (hw : ∀ r ∈ before ++ after, 0 < r.width)
    (heq : before ++ after = before' ++ after') (hlength : (encode before).length = (encode before').length) :
    before = before' ∧ after = after' := by
  obtain ⟨between, rfl, rfl⟩ := exists_append_of_length_le hw heq hlength.le
  have hzero : (encode between).length = 0 := by
    rw [length_encode_append] at hlength
    omega
  obtain rfl : between = [] := by
    refine length_encode_eq_zero (fun r hr => hw r ?_) hzero
    exact List.mem_append_right _ (List.mem_append_left _ hr)
  exact ⟨(List.append_nil _).symm, rfl⟩

theorem decode_ofString_append (s : String) (rest : Bytes) :
    decode (Bytes.ofString s ++ rest) = (s.toList.map fun c => ⟨c, String.utf8EncodeChar c⟩) ++ decode rest := by
  unfold Bytes.ofString
  induction s.toList with
  | nil => rfl
  | cons c cs ih => rw [List.flatMap_cons, List.append_assoc, decode_utf8EncodeChar, ih, List.map_cons, List.cons_append]

/-- A text may be cut before a string that begins with a character of ASCII. -/
theorem decode_append_ofString {s : String} {c : Char} {cs : List Char} (hs : s.toList = c :: cs) (hc : c.toNat < 0x80)
    (before : Bytes) (rest : Bytes) :
    decode (before ++ (Bytes.ofString s ++ rest)) = decode before ++ decode (Bytes.ofString s ++ rest) := by
  have hbyte : (UInt8.ofNat c.toNat).toNat < 0x80 := by
    rw [toNat_ofNat (by omega)]
    exact hc
  have hstring : Bytes.ofString s ++ rest = UInt8.ofNat c.toNat :: (cs.flatMap String.utf8EncodeChar ++ rest) := by
    rw [Bytes.ofString, hs, List.flatMap_cons, utf8EncodeChar_ascii hc]
    rfl
  rw [hstring]
  exact decodeFrom_append_ascii hbyte before _ (Nat.zero_le _)

end Rune

theorem Scan.printing_of_isWordChar {c : Char} (h : isWordChar c = true) : 0x21 ≤ c.toNat ∧ c.toNat < 0x80 := by
  rcases Bool.or_eq_true_iff.1 h with h | h
  · have := isWordStart_iff.1 h
    omega
  · have := isDigit_iff.1 h
    omega

namespace Lexeme.Fits
variable {l : Lexeme}

theorem printing (h : l.Fits) : ∀ c ∈ l.text.toList, 0x21 ≤ c.toNat ∧ c.toNat < 0x80 := by
  have hsymbols : ∀ p ∈ Kind.symbols, p.2.toList.all fun c => 0x21 ≤ c.toNat && c.toNat < 0x80 := by decide
  intro c hc
  cases h with
  | numeral h =>
    obtain ⟨ds, -, hd, heq⟩ := h
    have hdigit : ∀ d ∈ ds, 0x21 ≤ d.toNat ∧ d.toNat < 0x80 := fun d hm =>
      printing_of_isWordChar (Bool.or_eq_true_iff.2 (.inr (hd d hm)))
    rcases heq with heq | heq
    · exact hdigit c (heq ▸ hc)
    · rcases List.mem_cons.1 (heq ▸ hc : c ∈ '-' :: ds) with rfl | hc
      · decide
      · exact hdigit c hc
  | word h =>
    obtain ⟨d, ds, heq, hd, hds⟩ := h
    rcases List.mem_cons.1 (heq ▸ hc : c ∈ d :: ds) with rfl | hc
    · exact printing_of_isWordChar (Bool.or_eq_true_iff.2 (.inl hd))
    · exact printing_of_isWordChar (hds c hc)
  | symbol h => simpa using List.all_eq_true.1 (hsymbols _ h) c hc

theorem exists_cons (h : l.Fits) : ∃ c cs, l.text.toList = c :: cs := by
  refine List.exists_cons_of_ne_nil fun hnil => ?_
  have hstarts := starts_of_fits h
  rw [hnil] at hstarts
  cases hstarts

end Lexeme.Fits

/-! ### Tokenizations -/

namespace Bytes
variable {text : Bytes} {pos : Nat} {before after : List Rune}

/-- The bytes from `start` up to `stop`. -/
def slice (text : Bytes) (start stop : Nat) : Bytes := (text.take stop).drop start

/-- `r` is the rune at the offset `pos`. -/
def RuneAt (text : Bytes) (pos : Nat) (r : Rune) : Prop :=
  ∃ before after, Rune.decode text = before ++ r :: after ∧ (Rune.encode before).length = pos

/-- The text goes on at `pos` with a character that satisfies `p`. -/
def Continues (text : Bytes) (pos : Nat) (p : Char → Bool) : Prop := ∃ r, text.RuneAt pos r ∧ p r.char = true

theorem width_pos (h : Rune.decode text = before ++ after) : ∀ r ∈ before ++ after, 0 < r.width := by
  intro r hr
  rw [← h] at hr
  exact Rune.width_pos_of_mem_decode hr

theorem runeAt_iff (h : Rune.decode text = before ++ after) (hpos : (Rune.encode before).length = pos) {r : Rune} :
    text.RuneAt pos r ↔ after.head? = some r := by
  constructor
  · rintro ⟨before', after', h', hpos'⟩
    obtain ⟨-, rfl⟩ := Rune.append_inj_of_length (width_pos h) (h.symm.trans h') (hpos.trans hpos'.symm)
    rfl
  · intro hr
    obtain ⟨after, rfl⟩ := List.head?_eq_some_iff.1 hr
    exact ⟨before, after, h, hpos⟩

theorem continues_iff (h : Rune.decode text = before ++ after) (hpos : (Rune.encode before).length = pos)
    {p : Char → Bool} : text.Continues pos p ↔ ∃ c ∈ (after.map Rune.char).head?, p c = true := by
  constructor
  · rintro ⟨r, hr, hp⟩
    exact ⟨r.char, by simp [(runeAt_iff h hpos).1 hr], hp⟩
  · rintro ⟨c, hc, hp⟩
    rw [List.head?_map] at hc
    obtain ⟨r, hr, rfl⟩ := Option.map_eq_some_iff.1 hc
    exact ⟨r, (runeAt_iff h hpos).2 hr, hp⟩

theorem hasAt_iff (h : Rune.decode text = before ++ after) (hpos : (Rune.encode before).length = pos) {cs : List Char} :
    text.HasAt pos cs ↔ cs <+: after.map Rune.char := by
  constructor
  · rintro ⟨before', runes, after', h', hpos', rfl⟩
    rw [List.append_assoc] at h'
    obtain ⟨-, rfl⟩ := Rune.append_inj_of_length (width_pos h) (h.symm.trans h') (hpos.trans hpos'.symm)
    rw [List.map_append]
    exact List.prefix_append _ _
  · rintro ⟨cs', hcs⟩
    obtain ⟨runes, after, rfl, rfl, -⟩ := List.map_eq_append_iff.1 hcs.symm
    exact ⟨before, runes, after, by rw [h, List.append_assoc], hpos, rfl⟩

end Bytes

/-- Where the text of the token ends. -/
def Token.stop (t : Token) : Nat := t.pos + (Bytes.ofString t.text).length

/-- The tokens are all that the text consists of, but for white space and, in lenient lexing, characters that are no part
of a lexeme. -/
structure Tokenization (lexing : Lexing) (text : Bytes) (tokens : List Token) : Prop where
  fits : ∀ t ∈ tokens, t.toLexeme.Fits
  shown : ∀ t ∈ tokens, text.slice t.pos t.stop = Bytes.ofString t.text
  ordered : tokens.Pairwise fun t u => t.pos < u.pos ∧ t.stop ≤ u.pos
  /-- A rune is in a token, or else it is white space, or skipped because no lexeme is written there. -/
  gaps : ∀ pos r, text.RuneAt pos r → (∃ t ∈ tokens, t.pos ≤ pos ∧ pos + r.width ≤ t.stop) ∨ isBlank r.char = true ∨
    lexing = .lenient ∧ ∀ l : Lexeme, l.Fits → ¬ text.HasAt pos l.text.toList
  numerals : ∀ t ∈ tokens, t.kind = .number → ¬ text.Continues t.stop isDigit
  words : ∀ t ∈ tokens, IsWord t.text.toList → ¬ text.Continues t.stop isWordChar
  relations : ∀ t ∈ tokens, t.text ∈ ["=", "<", ">"] → ¬ text.Continues t.stop (· == '=')
  /-- A minus is a sign just when a digit follows it directly and the token before it, if any, is not a number, a name or
  a closing parenthesis. -/
  signs : ∀ before t after, tokens = before ++ t :: after → t.text.toList.head? = some '-' →
    (t.kind = .number ↔
      text.Continues (t.pos + 1) isDigit ∧ ∀ u ∈ before.getLast?, u.kind ∉ [.number, .ident, .closeParen])

/-! ### Tokens in their places -/

/-- Runes of ASCII characters are their encodings. -/
def Rune.Plain (runes : List Rune) : Prop :=
  ∀ r ∈ runes, r.char.toNat < 0x80 → r.bytes = String.utf8EncodeChar r.char

theorem Rune.plain_decode (text : Bytes) : Plain (decode text) := fun _ hr => bytes_of_mem_decode hr

theorem Lexeme.Fits.encode_eq {l : Lexeme} (h : l.Fits) {held : List Rune} (hheld : Rune.Plain held)
    (htext : held.map Rune.char = l.text.toList) : Rune.encode held = Bytes.ofString l.text := by
  rw [Rune.encode, Bytes.ofString, ← htext, List.flatMap_map]
  refine List.flatMap_congr fun r hr => hheld r hr (h.printing r.char ?_).2
  rw [← htext]
  exact List.mem_map_of_mem hr

namespace Token
variable {text : Bytes} {t : Token} {a : Bool}

theorem endsOperand_getLast? (ts : List Token) :
    (ts.getLast?.map (·.kind.endsOperand)).getD false = false ↔
      ∀ u ∈ ts.getLast?, u.kind ∉ [.number, .ident, .closeParen] := by
  have hkind (k : Kind) : k.endsOperand = false ↔ k ∉ [.number, .ident, .closeParen] := by
    cases k <;> decide
  cases ts.getLast? <;> simp [hkind]

theorem pos_lt_stop (h : t.toLexeme.Fits) : t.pos < t.stop := by
  obtain ⟨c, cs, htext⟩ := h.exists_cons
  have hlength : 0 < (Bytes.ofString t.text).length := by
    rw [Bytes.ofString, htext, List.flatMap_cons, List.length_append, String.length_utf8EncodeChar]
    exact Nat.add_pos_left c.utf8Size_pos _
  exact Nat.lt_add_of_pos_right hlength

theorem length_encode_held {before held : List Rune} (h : t.toLexeme.Fits) (hheld : Rune.Plain held)
    (hpos : (Rune.encode before).length = t.pos) (htext : held.map Rune.char = t.text.toList) :
    (Rune.encode (before ++ held)).length = t.stop := by
  rw [length_encode_append, hpos, h.encode_eq hheld htext]
  rfl

/-- The bytes of a text at some place are those of a lexeme just when its characters are there. -/
theorem slice_eq_iff (h : t.toLexeme.Fits) :
    text.slice t.pos t.stop = Bytes.ofString t.text ↔ text.HasAt t.pos t.text.toList := by
  constructor
  · intro hslice
    obtain ⟨c, cs, htext⟩ := h.exists_cons
    have hle : t.pos ≤ text.length := by
      have hlength := congrArg List.length hslice
      have hlt := pos_lt_stop h
      rw [Bytes.slice, List.length_drop, List.length_take] at hlength
      unfold stop at hlt hlength
      omega
    have htake : (text.take t.stop).take t.pos = text.take t.pos := by
      rw [List.take_take, Nat.min_eq_left (pos_lt_stop h).le]
    have hsplit : text = text.take t.pos ++ (Bytes.ofString t.text ++ text.drop t.stop) := by
      rw [← hslice, Bytes.slice, ← htake, ← List.append_assoc, List.take_append_drop, List.take_append_drop]
    have hdecode := Rune.decode_append_ofString htext (h.printing c (by simp [htext])).2 (text.take t.pos)
      (text.drop t.stop)
    rw [← hsplit, Rune.decode_ofString_append] at hdecode
    refine ⟨_, _, _, hdecode.trans (List.append_assoc ..).symm, ?_, ?_⟩
    · rw [Rune.encode_decode, List.length_take, Nat.min_eq_left hle]
    · rw [List.map_map]
      exact List.map_id _
  · rintro ⟨before, held, after, hdecode, hpos, htext⟩
    have hheld : Rune.Plain held := fun r hr => Rune.plain_decode text r (by simp [hdecode, hr])
    have hencode := Rune.encode_decode text
    rw [hdecode, State.encode_append] at hencode
    have hstop := length_encode_held h hheld hpos htext
    rw [Bytes.slice, ← hencode, ← hstop, List.take_left, State.encode_append, ← hpos, List.drop_left]
    exact h.encode_eq hheld htext

/-- Where the lexeme of a token ends, said of the text around it. -/
theorem ends_iff {before held after : List Rune} (h : t.toLexeme.Fits)
    (hdecode : Rune.decode text = before ++ held ++ after) (hpos : (Rune.encode before).length = t.pos)
    (htext : held.map Rune.char = t.text.toList) :
    t.toLexeme.Ends a (after.map Rune.char) ↔
      (t.kind = .number → ¬ text.Continues t.stop isDigit) ∧
      (IsWord t.text.toList → ¬ text.Continues t.stop isWordChar) ∧
      (t.text ∈ ["=", "<", ">"] → ¬ text.Continues t.stop (· == '=')) ∧
      (t.text.toList.head? = some '-' → (t.kind = .number ↔ text.Continues (t.pos + 1) isDigit ∧ a = false)) := by
  have hheld : Rune.Plain held := fun r hr => Rune.plain_decode text r (by simp [hdecode, hr])
  have hstop {p : Char → Bool} : text.Continues t.stop p ↔ ∃ c ∈ (after.map Rune.char).head?, p c = true :=
    Bytes.continues_iff hdecode (length_encode_held h hheld hpos htext)
  have hnot {p : Char → Bool} : (∀ c ∈ (after.map Rune.char).head?, p c = false) ↔ ¬ text.Continues t.stop p := by
    rw [hstop]
    simp
  have heq : (after.map Rune.char).head? ≠ some '=' ↔ ¬ text.Continues t.stop (· == '=') := by
    rw [hstop]
    simp
  have hsign : t.text.toList.head? = some '-' → (text.Continues (t.pos + 1) isDigit ↔
      ∃ c ∈ (t.text.toList ++ after.map Rune.char).tail.head?, isDigit c = true) := by
    intro hhead
    rw [← htext, List.head?_map] at hhead
    obtain ⟨m, hm, hminus⟩ := Option.map_eq_some_iff.1 hhead
    obtain ⟨held, rfl⟩ := List.head?_eq_some_iff.1 hm
    have hbytes : m.bytes = ['-'].flatMap String.utf8EncodeChar := by
      rw [hheld m List.mem_cons_self (by rw [hminus]; decide), hminus]
      rfl
    have hnext : (Rune.encode (before ++ [m])).length = t.pos + 1 := by
      rw [length_encode_append, hpos, Rune.encode, List.flatMap_singleton, hbytes]
      rfl
    have hdecode' : Rune.decode text = (before ++ [m]) ++ (held ++ after) := by
      rw [hdecode]
      simp
    rw [Bytes.continues_iff hdecode' hnext, ← htext]
    simp
  constructor
  · intro he
    refine ⟨fun hk => hnot.1 (he.numeral hk), fun hw => hnot.1 (he.word hw), fun hr => heq.1 (he.relation hr),
      fun hhead => ?_⟩
    rw [hsign hhead]
    exact he.sign hhead
  · rintro ⟨hnumeral, hword, hrelation, hminus⟩
    refine ⟨fun hk => hnot.2 (hnumeral hk), fun hw => hnot.2 (hword hw), fun hr => heq.2 (hrelation hr), fun hhead => ?_⟩
    rw [← hsign hhead]
    exact hminus hhead

end Token

/-! ### From the steps to the tokens -/

namespace Scan.Segmented
variable {lexing : Lexing} {a : Bool} {pos : Nat} {runes : List Rune} {ts : List Token}

theorem length_encode_cons (r : Rune) (runes : List Rune) :
    (Rune.encode (r :: runes)).length = r.width + (Rune.encode runes).length := List.length_append

/-- A token is one of the steps, taken with what the token before it says of operands. -/
theorem exists_split (h : Segmented lexing a pos runes ts) {ts₁ ts₂ : List Token} {t : Token}
    (hts : ts = ts₁ ++ t :: ts₂) :
    ∃ front held rest, runes = front ++ held ++ rest ∧ t.pos = pos + (Rune.encode front).length ∧
      held.map Rune.char = t.text.toList ∧ t.toLexeme.Fits ∧
      t.toLexeme.Ends ((ts₁.getLast?.map (·.kind.endsOperand)).getD a) (rest.map Rune.char) := by
  induction h generalizing ts₁ with
  | done => simp at hts
  | @skip a pos r rest ts hskip _ ih =>
    obtain ⟨front, held, rest', rfl, hpos, hheld⟩ := ih hts
    refine ⟨r :: front, held, rest', rfl, ?_, hheld⟩
    rw [hpos, length_encode_cons, Nat.add_assoc]
  | @token a pos l held rest ts hl htext he _ ih =>
    cases ts₁ with
    | nil =>
      obtain ⟨rfl, rfl⟩ := List.cons.inj hts
      exact ⟨[], held, rest, rfl, rfl, htext, hl, he⟩
    | cons u ts₁ =>
      obtain ⟨rfl, rfl⟩ := List.cons.inj hts
      obtain ⟨front, held', rest', rfl, hpos, htext', hl', he'⟩ := ih rfl
      refine ⟨held ++ front, held', rest', by simp, ?_, htext', hl', ?_⟩
      · rw [hpos, length_encode_append, Nat.add_assoc]
      · have hlast : (((⟨l, pos⟩ : Token) :: ts₁).getLast?.map (·.kind.endsOperand)).getD a =
            (ts₁.getLast?.map (·.kind.endsOperand)).getD l.kind.endsOperand := by
          rw [List.getLast?_cons]
          cases ts₁.getLast? <;> rfl
        rwa [hlast]

theorem le_pos (h : Segmented lexing a pos runes ts) : ∀ t ∈ ts, pos ≤ t.pos := by
  intro t ht
  obtain ⟨ts₁, ts₂, hts⟩ := List.append_of_mem ht
  obtain ⟨front, -, -, -, hpos, -⟩ := h.exists_split hts
  rw [hpos]
  exact Nat.le_add_right _ _

theorem ordered (h : Segmented lexing a pos runes ts) (hplain : Rune.Plain runes) :
    ts.Pairwise fun t u => t.pos < u.pos ∧ t.stop ≤ u.pos := by
  induction h with
  | done => exact .nil
  | skip _ _ ih => exact ih fun r hr => hplain r (List.mem_cons_of_mem _ hr)
  | @token a pos l held rest ts hl htext he hrest ih =>
    refine .cons (fun u hu => ?_) (ih fun r hr => hplain r (List.mem_append_right _ hr))
    have hheld : Rune.Plain held := fun r hr => hplain r (List.mem_append_left _ hr)
    have hstop : Token.stop ⟨l, pos⟩ ≤ u.pos := by
      rw [Token.stop, ← hl.encode_eq hheld htext]
      exact hrest.le_pos u hu
    exact ⟨(Token.pos_lt_stop (t := ⟨l, pos⟩) hl).trans_le hstop, hstop⟩

theorem gaps (h : Segmented lexing a pos runes ts) (hplain : Rune.Plain runes) {front rest : List Rune} {r : Rune}
    (hruns : runes = front ++ r :: rest) :
    (∃ t ∈ ts, t.pos ≤ pos + (Rune.encode front).length ∧ pos + (Rune.encode front).length + r.width ≤ t.stop) ∨
      isBlank r.char = true ∨ lexing = .lenient ∧ Barren ((r :: rest).map Rune.char) := by
  induction h generalizing front with
  | done => simp at hruns
  | @skip a pos r₀ rest₀ ts hskip _ ih =>
    cases front with
    | nil =>
      obtain ⟨rfl, rfl⟩ := List.cons.inj hruns
      exact .inr hskip
    | cons r₁ front =>
      obtain ⟨rfl, hrest⟩ := List.cons.inj hruns
      have hgap := ih (fun r hr => hplain r (List.mem_cons_of_mem _ hr)) hrest
      rwa [length_encode_cons, ← Nat.add_assoc]
  | @token a pos l held rest₀ ts hl htext he _ ih =>
    have hheld : Rune.Plain held := fun r hr => hplain r (List.mem_append_left _ hr)
    have hstop : Token.stop ⟨l, pos⟩ = pos + (Rune.encode held).length := by
      rw [Token.stop, ← hl.encode_eq hheld htext]
    -- The rune comes after the token, or is one of its runes.
    have later (front' : List Rune) (hfront : front = held ++ front') (hrest : rest₀ = front' ++ r :: rest) :
        (∃ t ∈ (⟨l, pos⟩ : Token) :: ts, t.pos ≤ pos + (Rune.encode front).length ∧
          pos + (Rune.encode front).length + r.width ≤ t.stop) ∨
          isBlank r.char = true ∨ lexing = .lenient ∧ Barren ((r :: rest).map Rune.char) := by
      have hgap := ih (fun r hr => hplain r (List.mem_append_right _ hr)) hrest
      rw [hfront, length_encode_append, ← Nat.add_assoc]
      refine hgap.imp_left ?_
      rintro ⟨t, ht, hle⟩
      exact ⟨t, List.mem_cons_of_mem _ ht, hle⟩
    rcases List.append_eq_append_iff.1 hruns with ⟨front', hfront, hrest⟩ | ⟨front', hheld', hrest⟩
    · exact later front' hfront hrest
    · cases front' with
      | nil => exact later [] (by simpa using hheld'.symm) hrest.symm
      | cons r₁ front' =>
        obtain ⟨rfl, rfl⟩ := List.cons.inj hrest
        refine .inl ⟨_, List.mem_cons_self, Nat.le_add_right _ _, ?_⟩
        rw [hstop, hheld', length_encode_append, length_encode_cons]
        omega

theorem tokenization {text : Bytes} (h : Segmented lexing false 0 (Rune.decode text) ts) :
    Tokenization lexing text ts := by
  have hplain := Rune.plain_decode text
  have hplace {ts₁ ts₂ : List Token} {t : Token} (hts : ts = ts₁ ++ t :: ts₂) :
      t.toLexeme.Fits ∧ text.HasAt t.pos t.text.toList ∧
        (t.kind = .number → ¬ text.Continues t.stop isDigit) ∧
        (IsWord t.text.toList → ¬ text.Continues t.stop isWordChar) ∧
        (t.text ∈ ["=", "<", ">"] → ¬ text.Continues t.stop (· == '=')) ∧
        (t.text.toList.head? = some '-' → (t.kind = .number ↔ text.Continues (t.pos + 1) isDigit ∧
          (ts₁.getLast?.map (·.kind.endsOperand)).getD false = false)) := by
    obtain ⟨front, held, rest, hdecode, hpos, htext, hl, he⟩ := h.exists_split hts
    have hpos : (Rune.encode front).length = t.pos := by rw [hpos, Nat.zero_add]
    exact ⟨hl, ⟨front, held, rest, hdecode, hpos, htext⟩, (Token.ends_iff hl hdecode hpos htext).1 he⟩
  have hmem {t : Token} (ht : t ∈ ts) := hplace (List.append_of_mem ht).choose_spec.choose_spec
  refine ⟨fun t ht => (hmem ht).1, fun t ht => (Token.slice_eq_iff (hmem ht).1).2 (hmem ht).2.1, h.ordered hplain, ?_,
    fun t ht => (hmem ht).2.2.1, fun t ht => (hmem ht).2.2.2.1, fun t ht => (hmem ht).2.2.2.2.1, ?_⟩
  · rintro pos r ⟨front, rest, hdecode, rfl⟩
    have hgap := h.gaps hplain hdecode
    rw [Nat.zero_add] at hgap
    refine hgap.imp_right fun hgap => hgap.imp_right fun ⟨hlenient, hbarren⟩ => ⟨hlenient, fun l hl hat => ?_⟩
    exact hbarren l hl ((Bytes.hasAt_iff hdecode rfl).1 hat)
  · intro ts₁ t ts₂ hts hhead
    rw [(hplace hts).2.2.2.2.2 hhead, Token.endsOperand_getLast?]

end Scan.Segmented

/-! ### From the tokens to the steps -/

namespace Tokenization
variable {lexing : Lexing} {text : Bytes} {tokens : List Token}

theorem hasAt (h : Tokenization lexing text tokens) {t : Token} (ht : t ∈ tokens) : text.HasAt t.pos t.text.toList :=
  (Token.slice_eq_iff (h.fits t ht)).1 (h.shown t ht)

/-- A token that does not start here starts after the rune that is here. -/
theorem add_width_le (h : Tokenization lexing text tokens) {t : Token} (ht : t ∈ tokens) {before rest : List Rune}
    {r : Rune} (hdecode : Rune.decode text = before ++ r :: rest) (hlt : (Rune.encode before).length < t.pos) :
    (Rune.encode before).length + r.width ≤ t.pos := by
  obtain ⟨front, held, after, hdecode', hpos, -⟩ := h.hasAt ht
  rw [List.append_assoc] at hdecode'
  obtain ⟨between, rfl, hbetween⟩ := Rune.exists_append_of_length_le (Bytes.width_pos hdecode)
    (hdecode.symm.trans hdecode') (hpos ▸ hlt.le)
  rw [length_encode_append] at hpos
  cases between with
  | nil =>
    have hzero : (Rune.encode []).length = 0 := rfl
    omega
  | cons r' between =>
    obtain ⟨rfl, -⟩ := List.cons.inj hbetween
    rw [Segmented.length_encode_cons] at hpos
    omega

end Tokenization

/-- A place in the text, given by the runes before and after it, that separates the tokens `done` from `todo`. -/
structure Cut (text : Bytes) (done todo : List Token) (before runes : List Rune) : Prop where
  decode : Rune.decode text = before ++ runes
  done : ∀ t ∈ done, t.stop ≤ (Rune.encode before).length
  todo : ∀ t ∈ todo, (Rune.encode before).length ≤ t.pos

namespace Cut
variable {lexing : Lexing} {text : Bytes} {done todo : List Token} {before runes : List Rune}

theorem start {tokens : List Token} : Cut text [] tokens [] (Rune.decode text) :=
  ⟨rfl, by simp, fun _ _ => Nat.zero_le _⟩

/-- If the next token starts here, its runes come next. -/
theorem token {t : Token} {ts : List Token} (hcut : Cut text done (t :: ts) before runes)
    (h : Tokenization lexing text (done ++ t :: ts)) (hpos : t.pos = (Rune.encode before).length) :
    ∃ held rest, runes = held ++ rest ∧ held.map Rune.char = t.text.toList ∧
      t.toLexeme.Ends ((done.getLast?.map (·.kind.endsOperand)).getD false) (rest.map Rune.char) ∧
      Cut text (done ++ [t]) ts (before ++ held) rest := by
  have ht : t ∈ done ++ t :: ts := by simp
  have hfits := h.fits t ht
  obtain ⟨cs, hcs⟩ := (Bytes.hasAt_iff hcut.decode hpos.symm).1 (h.hasAt ht)
  obtain ⟨held, rest, rfl, htext, rfl⟩ := List.map_eq_append_iff.1 hcs.symm
  have hdecode : Rune.decode text = before ++ held ++ rest := by rw [hcut.decode, List.append_assoc]
  have hplain : Rune.Plain held := fun r hr => Rune.plain_decode text r (by simp [hdecode, hr])
  have hstop := Token.length_encode_held hfits hplain hpos.symm htext
  refine ⟨held, rest, rfl, htext, ?_, hdecode, ?_, ?_⟩
  · refine (Token.ends_iff hfits hdecode hpos.symm htext).2
      ⟨h.numerals t ht, h.words t ht, h.relations t ht, fun hhead => ?_⟩
    rw [h.signs done t ts rfl hhead, Token.endsOperand_getLast?]
  · intro u hu
    rw [hstop]
    rcases List.mem_append.1 hu with hu | hu
    · exact (hcut.done u hu).trans (hpos ▸ (Token.pos_lt_stop hfits).le)
    · rw [List.mem_singleton.1 hu]
  · intro u hu
    rw [hstop]
    exact (List.rel_of_pairwise_cons (List.pairwise_append.1 h.ordered).2.1 hu).2

/-- If it does not, neither does a later one. -/
theorem lt_pos (hcut : Cut text done todo before runes) (h : Tokenization lexing text (done ++ todo))
    (hhead : ∀ t ∈ todo.head?, t.pos ≠ (Rune.encode before).length) :
    ∀ t ∈ todo, (Rune.encode before).length < t.pos := by
  intro t ht
  cases todo with
  | nil => cases ht
  | cons u us =>
    have hu : (Rune.encode before).length < u.pos := lt_of_le_of_ne (hcut.todo u List.mem_cons_self) (hhead u rfl).symm
    rcases List.mem_cons.1 ht with rfl | ht
    · exact hu
    · exact hu.trans (List.rel_of_pairwise_cons (List.pairwise_append.1 h.ordered).2.1 ht).1

theorem todo_eq_nil (hcut : Cut text done todo before []) (h : Tokenization lexing text (done ++ todo))
    (hlt : ∀ t ∈ todo, (Rune.encode before).length < t.pos) : todo = [] := by
  refine List.eq_nil_iff_forall_not_mem.2 fun t ht => ?_
  obtain ⟨front, held, after, hdecode, hpos, -⟩ := h.hasAt (List.mem_append_right _ ht)
  have hlength := congrArg (fun runes => (Rune.encode runes).length) (hcut.decode.symm.trans hdecode)
  have := hlt t ht
  simp only [List.append_nil, length_encode_append] at hlength
  omega

/-- A rune that no token starts with is in no token. -/
theorem skip {r : Rune} {rest : List Rune} (hcut : Cut text done todo before (r :: rest))
    (h : Tokenization lexing text (done ++ todo)) (hlt : ∀ t ∈ todo, (Rune.encode before).length < t.pos) :
    (isBlank r.char = true ∨ lexing = .lenient ∧ Barren ((r :: rest).map Rune.char)) ∧
      Cut text done todo (before ++ [r]) rest := by
  have hwidth : 0 < r.width := Bytes.width_pos hcut.decode r (by simp)
  have hlength : (Rune.encode (before ++ [r])).length = (Rune.encode before).length + r.width := by
    rw [length_encode_append, Segmented.length_encode_cons]
    rfl
  constructor
  · have hgap := (h.gaps _ r ⟨before, rest, hcut.decode, rfl⟩).resolve_left (by
      rintro ⟨t, ht, hle, hge⟩
      rcases List.mem_append.1 ht with ht | ht
      · have := hcut.done t ht
        omega
      · have := hlt t ht
        omega)
    refine hgap.imp_right fun ⟨hlenient, hnone⟩ => ⟨hlenient, fun l hl hprefix => ?_⟩
    exact hnone l hl ((Bytes.hasAt_iff hcut.decode rfl).2 hprefix)
  · refine ⟨by rw [hcut.decode, List.append_assoc]; rfl, fun t ht => ?_, fun t ht => ?_⟩
    · rw [hlength]
      exact (hcut.done t ht).trans (Nat.le_add_right _ _)
    · rw [hlength]
      exact h.add_width_le (List.mem_append_right _ ht) hcut.decode (hlt t ht)

theorem segmented (hcut : Cut text done todo before runes) (h : Tokenization lexing text (done ++ todo)) :
    Segmented lexing ((done.getLast?.map (·.kind.endsOperand)).getD false) (Rune.encode before).length runes todo := by
  induction hn : runes.length using Nat.strongRecOn generalizing done todo before runes with
  | _ n ih =>
    by_cases hhead : ∀ t ∈ todo.head?, t.pos ≠ (Rune.encode before).length
    · have hlt := hcut.lt_pos h hhead
      cases runes with
      | nil =>
        rw [hcut.todo_eq_nil h hlt]
        exact .done
      | cons r rest =>
        obtain ⟨hskip, hcut⟩ := hcut.skip h hlt
        have hrest := ih rest.length (hn ▸ Nat.lt_succ_self _) hcut h rfl
        rw [length_encode_append, Segmented.length_encode_cons] at hrest
        exact .skip hskip hrest
    · push Not at hhead
      obtain ⟨t, ht, hpos⟩ := hhead
      obtain ⟨ts, rfl⟩ := List.head?_eq_some_iff.1 ht
      obtain ⟨held, rest, rfl, htext, hends, hcut⟩ := hcut.token h hpos
      have hfits := h.fits t (by simp)
      have hshorter : rest.length < n := by
        obtain ⟨c, cs, hcons⟩ := hfits.exists_cons
        have hheld := congrArg List.length (htext.trans hcons)
        rw [List.length_map, List.length_cons] at hheld
        rw [← hn, List.length_append]
        omega
      have hrest := ih rest.length hshorter hcut (by rwa [List.append_assoc]) rfl
      rw [List.getLast?_append, length_encode_append] at hrest
      rw [← hpos] at hrest ⊢
      exact .token hfits htext hends hrest

end Cut

theorem Tokenization.segmented {lexing : Lexing} {text : Bytes} {tokens : List Token}
    (h : Tokenization lexing text tokens) : Segmented lexing false 0 (Rune.decode text) tokens := Cut.start.segmented h

/-! ### Scans -/

namespace Source

theorem scan_complete (lexing : Lexing) (text : Bytes) :
    (complete text).scan lexing = (State.between false 0).run lexing .complete (Rune.decode text) := rfl

theorem scan_of_tokenization {lexing : Lexing} {text : Bytes} {tokens : List Token}
    (h : Tokenization lexing text tokens) :
    (complete text).scan lexing = (tokens ++ [Token.ending text.length]).map .token := by
  rw [scan_complete, h.segmented.run_eq, Rune.encode_decode, Nat.zero_add]

theorem exists_segmented {lexing : Lexing} {text : Bytes} {all : List Token}
    (h : (complete text).scan lexing = all.map .token) :
    ∃ tokens, all = tokens ++ [Token.ending text.length] ∧ Segmented lexing false 0 (Rune.decode text) tokens := by
  obtain ⟨tokens, hall, htokens⟩ := Scan.exists_segmented h
  rw [Rune.encode_decode, Nat.zero_add] at hall
  exact ⟨tokens, hall, htokens⟩

theorem exists_tokenization {lexing : Lexing} {text : Bytes} {all : List Token}
    (h : (complete text).scan lexing = all.map .token) :
    ∃ tokens, all = tokens ++ [Token.ending text.length] ∧ Tokenization lexing text tokens := by
  obtain ⟨tokens, hall, htokens⟩ := exists_segmented h
  exact ⟨tokens, hall, htokens.tokenization⟩

/-- A scan without errors gives the one tokenization there is, and then the end of the text. A text with no tokenization
does not scan without errors, and in lenient lexing every text has one. -/
theorem scan_iff_tokenization (lexing : Lexing) (text : Bytes) :
    (∀ all : List Token, (complete text).scan lexing = all.map .token ↔
      ∃ tokens, all = tokens ++ [Token.ending text.length] ∧ Tokenization lexing text tokens) ∧
    (∀ tokens tokens', Tokenization lexing text tokens → Tokenization lexing text tokens' → tokens = tokens') ∧
    (lexing = .lenient → ∃ tokens, Tokenization lexing text tokens) := by
  refine ⟨fun all => ⟨exists_tokenization, ?_⟩, fun tokens tokens' h h' => ?_, ?_⟩
  · rintro ⟨tokens, rfl, h⟩
    exact scan_of_tokenization h
  · have heq := (scan_of_tokenization h).symm.trans (scan_of_tokenization h')
    exact List.append_cancel_right (List.map_injective_iff.2 (fun _ _ => Item.token.inj) heq)
  · rintro rfl
    obtain ⟨tokens, -, h⟩ := exists_tokenization (scan_lenient text)
    exact ⟨tokens, h⟩

/-- The minus after the name is an operator, the one after the relation a sign. -/
example : ((ofString "a-7<=-7").tokens .strict).map (·.text) = ["a", "-", "7", "<=", "-7", ""] := by decide

end Source

end Octal
