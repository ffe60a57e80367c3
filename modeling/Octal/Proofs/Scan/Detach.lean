import Mathlib
import Octal.Proofs.Spacing

/-!
# Setting signs apart

A minus directly before a digit is a sign or an operator, depending on the token before it. With a space after it, it is
always an operator, and all other tokens are what they were (`Scan.Segmented.detach`). Whatever bytes are around, the
space is a rune of its own, since a minus is one byte that belongs to no other rune (`Rune.decode_insertIdx`).
-/

namespace Octal

open Scan Text

namespace Token

/-- The token is a numeral with a sign. -/
def signed (t : Token) : Bool := t.kind == .number && t.text.toList.head? == some '-'

/-- The offsets of the signs. -/
def signs (tokens : List Token) : List Nat := (tokens.filter Token.signed).map Token.pos

/-- What the token is read as when there is a space after its sign. -/
def unsign (t : Token) : List Lexeme :=
  if t.signed then [⟨.minus, "-"⟩, ⟨.number, .ofList t.text.toList.tail⟩] else [t.toLexeme]

end Token

/-- A signed numeral is a minus and digits. -/
theorem Lexeme.Fits.exists_digits {l : Lexeme} {pos : Nat} (h : l.Fits) (hsigned : Token.signed ⟨l, pos⟩ = true) :
    ∃ text ds, l = ⟨.number, text⟩ ∧ text.toList = '-' :: ds ∧ ds ≠ [] ∧ ∀ d ∈ ds, isDigit d = true := by
  obtain ⟨kind, text⟩ := l
  have hsign : kind = .number ∧ text.toList.head? = some '-' := by simpa [Token.signed] using hsigned
  obtain ⟨rfl, hhead⟩ := hsign
  obtain ⟨ds, hds, hne, hdigits, -⟩ := (h.sign hhead).resolve_left fun hminus => hminus.2 rfl
  exact ⟨text, ds, rfl, hds, hne, hdigits⟩

/-- The text with a space after each of the bytes at the offsets. -/
def Bytes.spaceAfter (offsets : List Nat) (text : Bytes) : Bytes :=
  offsets.foldr (fun pos text => text.insertIdx (pos + 1) 0x20) text

namespace Rune

theorem insertIdx_length_add_one {α : Type} (before after : List α) (a b : α) :
    (before ++ a :: after).insertIdx (before.length + 1) b = before ++ a :: b :: after := by
  induction before with
  | nil => rfl
  | cons x before ih => simpa using ih

/-- A space after a minus is a rune more, whatever bytes are around. -/
theorem decode_insertIdx {text : Bytes} {front rest : List Rune} {m : Rune} (h : decode text = front ++ m :: rest)
    (hm : m.char = '-') :
    decode (text.insertIdx ((encode front).length + 1) 0x20) = front ++ m :: space :: rest := by
  have hmem : m ∈ decode text := by simp [h]
  have hbytes : m.bytes = [0x2D] := by
    rw [bytes_of_mem_decode hmem (by rw [hm]; decide), hm]
    rfl
  have htext : text = encode front ++ 0x2D :: encode rest := by
    have hencode := encode_decode text
    rw [h, State.encode_append] at hencode
    rw [← hencode, encode, encode, encode, List.flatMap_cons, hbytes]
    rfl
  have hdash : (0x2D : UInt8).toNat < 0x80 := by decide
  have hsplit := decode_append_ascii hdash (encode front) (encode rest)
  rw [← htext, h] at hsplit
  obtain ⟨hfront, hrest⟩ := append_inj_of_length (Bytes.width_pos h) hsplit (by rw [encode_decode])
  obtain ⟨hm, hrest⟩ := List.cons.inj hrest
  have hspace : decode (0x20 :: encode rest) = space :: decode (encode rest) := whole_space (encode rest)
  rw [htext, insertIdx_length_add_one, decode_append_ascii hdash, hspace, ← hfront, ← hrest, ← hm]

end Rune

section
variable {l : Lexeme} {a : Bool} {rest rest' : List Char}

/-- Where a lexeme ends is a matter of the next character only. -/
theorem Lexeme.Ends.congr (h : l.Ends a rest) (hl : l.Fits) (hhead : rest'.head? = rest.head?) : l.Ends a rest' := by
  obtain ⟨c, cs, htext⟩ := hl.exists_cons
  refine ⟨hhead ▸ h.numeral, hhead ▸ h.word, hhead ▸ h.relation, fun hminus => ?_⟩
  have hsign := h.sign hminus
  rw [htext, List.cons_append, List.tail_cons, List.head?_append] at hsign ⊢
  rwa [hhead]

theorem Scan.Barren.congr {c : Char} (h : Barren (c :: rest)) (hhead : rest'.head? = rest.head?) :
    Barren (c :: rest') := by
  rw [barren_iff] at h ⊢
  rw [← h, starts, starts, hhead]

end

namespace Scan.Segmented
variable {lexing : Lexing} {a : Bool} {pos : Nat} {runes : List Rune} {ts : List Token}

theorem moved (h : Segmented lexing a pos runes ts) (pos' : Nat) :
    ∃ ts', Segmented lexing a pos' runes ts' ∧ ts'.map Token.toLexeme = ts.map Token.toLexeme := by
  induction h generalizing pos' with
  | done => exact ⟨[], .done, rfl⟩
  | @skip a pos r rest ts hskip _ ih =>
    obtain ⟨ts', hts, hlexemes⟩ := ih (pos' + r.width)
    exact ⟨ts', .skip hskip hts, hlexemes⟩
  | @token a pos l held rest ts hl htext he _ ih =>
    obtain ⟨ts', hts, hlexemes⟩ := ih (pos' + (Rune.encode held).length)
    exact ⟨⟨l, pos'⟩ :: ts', .token hl htext he hts, by rw [List.map_cons, List.map_cons, hlexemes]⟩

/-- The steps from a signed numeral on, with a space after the sign. -/
theorem detach_first {l : Lexeme} {held rest : List Rune} (hl : l.Fits) (htext : held.map Rune.char = l.text.toList)
    (he : l.Ends a (rest.map Rune.char)) {start : Nat} (hrest : Segmented lexing l.kind.endsOperand start rest ts)
    (hsigned : Token.signed ⟨l, pos⟩ = true) :
    ∃ m digits, held = m :: digits ∧ m.char = '-' ∧
      ∃ ts', Segmented lexing a pos (m :: Rune.space :: (digits ++ rest)) ts' ∧
        ts'.map Token.toLexeme = Token.unsign ⟨l, pos⟩ ++ ts.map Token.toLexeme := by
  obtain ⟨text, ds, rfl, hds, hne, hdigits⟩ := hl.exists_digits hsigned
  obtain ⟨m, digits, rfl, hm, hdigits'⟩ := List.map_eq_cons_iff.1 (htext.trans hds)
  have hunsign : Token.unsign ⟨⟨.number, text⟩, pos⟩ = [⟨.minus, "-"⟩, ⟨.number, .ofList ds⟩] := by
    rw [Token.unsign, if_pos hsigned, hds]
    rfl
  have hisDigits : IsDigits (String.ofList ds).toList := ⟨ds, hne, hdigits, .inl String.toList_ofList⟩
  have hnumber : (⟨.number, .ofList ds⟩ : Lexeme).Ends false (rest.map Rune.char) :=
    ends_numeral hisDigits (he.numeral rfl) fun _ => rfl
  have hminus : (⟨.minus, "-"⟩ : Lexeme).Ends a ((Rune.space :: (digits ++ rest)).map Rune.char) := by
    refine ends_symbol (by simp [Kind.symbols]) (by simp) fun _ hdigit => ?_
    obtain ⟨⟨c, hc, hdigit⟩, -⟩ := hdigit
    obtain rfl : ' ' = c := Option.some.inj hc
    cases hdigit
  obtain ⟨ts', hts, hlexemes⟩ := hrest.moved (pos + m.width + 1 + (Rune.encode digits).length)
  refine ⟨m, digits, rfl, hm, ⟨⟨.minus, "-"⟩, pos⟩ :: ⟨⟨.number, .ofList ds⟩, pos + m.width + 1⟩ :: ts', ?_, ?_⟩
  · have hlength : pos + (Rune.encode [m]).length = pos + m.width := by rw [length_encode_cons]; rfl
    show Segmented lexing a pos ([m] ++ Rune.space :: (digits ++ rest)) _
    refine .token (.symbol (by simp [Kind.symbols])) (by rw [List.map_singleton, hm]; rfl) hminus ?_
    rw [hlength]
    refine .skip (.inl rfl) (.token (.numeral hisDigits) ?_ hnumber hts)
    rw [hdigits']
    exact String.toList_ofList.symm
  · rw [hunsign, List.map_cons, List.map_cons, hlexemes]
    rfl

theorem head?_insert (front rest : List Rune) (m r : Rune) :
    ((front ++ m :: r :: rest).map Rune.char).head? = ((front ++ m :: rest).map Rune.char).head? := by
  cases front <;> rfl

/-- A space after one of the signs. -/
theorem detach (h : Segmented lexing a pos runes ts) {ts₁ ts₂ : List Token} {t : Token} (hts : ts = ts₁ ++ t :: ts₂)
    (hsigned : t.signed = true) :
    ∃ front m rest, runes = front ++ m :: rest ∧ t.pos = pos + (Rune.encode front).length ∧ m.char = '-' ∧
      ∃ ts', Segmented lexing a pos (front ++ m :: Rune.space :: rest) (ts₁ ++ ts') ∧
        ts'.map Token.toLexeme = t.unsign ++ ts₂.map Token.toLexeme := by
  induction h generalizing ts₁ with
  | done => simp at hts
  | @skip a pos r rest₀ ts hskip _ ih =>
    obtain ⟨front, m, rest, rfl, hpos, hm, ts', hts', hlexemes⟩ := ih hts
    refine ⟨r :: front, m, rest, rfl, ?_, hm, ts', .skip ?_ hts', hlexemes⟩
    · rw [hpos, length_encode_cons, Nat.add_assoc]
    · exact hskip.imp_right fun ⟨hlenient, hbarren⟩ => ⟨hlenient, hbarren.congr (head?_insert ..)⟩
  | @token a pos l held rest₀ ts hl htext he hrest ih =>
    cases ts₁ with
    | nil =>
      obtain ⟨rfl, rfl⟩ := List.cons.inj hts
      obtain ⟨m, digits, rfl, hm, ts', hts', hlexemes⟩ := detach_first hl htext he hrest hsigned
      exact ⟨[], m, digits ++ rest₀, rfl, rfl, hm, ts', hts', hlexemes⟩
    | cons u ts₁ =>
      obtain ⟨rfl, rfl⟩ := List.cons.inj hts
      obtain ⟨front, m, rest, rfl, hpos, hm, ts', hts', hlexemes⟩ := ih rfl
      refine ⟨held ++ front, m, rest, by simp, ?_, hm, ts', ?_, hlexemes⟩
      · rw [hpos, length_encode_append, Nat.add_assoc]
      · rw [List.append_assoc]
        exact .token hl htext (he.congr hl (head?_insert ..)) hts'

/-- A space after each of the signs from some token on. -/
theorem detach_all {text : Bytes} {ts₁ ts₂ : List Token} (h : Segmented lexing false 0 (Rune.decode text) (ts₁ ++ ts₂)) :
    ∃ ts', Segmented lexing false 0 (Rune.decode (text.spaceAfter (Token.signs ts₂))) (ts₁ ++ ts') ∧
      ts'.map Token.toLexeme = ts₂.flatMap Token.unsign := by
  induction ts₂ generalizing ts₁ with
  | nil => exact ⟨[], h, rfl⟩
  | cons t ts₂ ih =>
    rw [List.append_cons] at h
    obtain ⟨ts', hts', hlexemes⟩ := ih h
    rw [List.append_assoc] at hts'
    rw [List.flatMap_cons, ← hlexemes]
    by_cases hsigned : t.signed = true
    · obtain ⟨front, m, rest, hdecode, hpos, hm, ts'', hts'', hlexemes'⟩ := hts'.detach rfl hsigned
      refine ⟨ts'', ?_, hlexemes'⟩
      have hsigns : Token.signs (t :: ts₂) = t.pos :: Token.signs ts₂ := by
        rw [Token.signs, List.filter_cons_of_pos hsigned]
        rfl
      rw [hsigns]
      show Segmented lexing false 0 (Rune.decode ((text.spaceAfter (Token.signs ts₂)).insertIdx (t.pos + 1) 0x20)) _
      rwa [hpos, Nat.zero_add, Rune.decode_insertIdx hdecode hm]
    · have hsigns : Token.signs (t :: ts₂) = Token.signs ts₂ := by
        rw [Token.signs, List.filter_cons_of_neg hsigned]
        rfl
      rw [hsigns]
      refine ⟨t :: ts', hts', ?_⟩
      rw [Token.unsign, if_neg hsigned]
      rfl

end Scan.Segmented

theorem Token.signs_append_ending (ts : List Token) (n : Nat) : signs (ts ++ [ending n]) = signs ts := by
  rw [signs, List.filter_append, List.filter_cons_of_neg Bool.false_ne_true, List.filter_nil, List.append_nil]
  rfl

/-- The tokens of a text with its signs apart. -/
theorem Source.exists_scan_spaceAfter {lexing : Lexing} {text : Bytes} {ts : List Token}
    (h : Segmented lexing false 0 (Rune.decode text) ts) :
    ∃ all : List Token, (complete (text.spaceAfter (Token.signs ts))).scan lexing = all.map .token ∧
      all.map Token.toLexeme = (ts ++ [Token.ending text.length]).flatMap Token.unsign := by
  rw [← List.nil_append ts] at h
  obtain ⟨ts', hts', hlexemes⟩ := h.detach_all
  refine ⟨_, hts'.run_eq, ?_⟩
  rw [List.nil_append, List.map_append, hlexemes, List.flatMap_append]
  rfl

end Octal
