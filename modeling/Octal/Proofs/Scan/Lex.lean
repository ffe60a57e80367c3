import Octal.Proofs.Numeral
import Octal.Proofs.Position
import Octal.Proofs.Rune
import Octal.Proofs.Scan.Lexeme

/-!
# Scanning without positions

`lex` is the scan of a complete source with every position forgotten (`map_run_eq_lex`). It is a function
of the characters alone, and at the end of a token it goes on as it does between tokens (`lex_piece`).
So a text that is put together from parts is scanned part by part, as long as no part ends in a word
or numeral that the next one continues.
-/

namespace Octal.Scan

open Text

/-- Whether the last token up to the end of the piece ends an operand. -/
def Piece.endsOperand (p : Piece) (afterOperand : Bool) : Bool :=
  match p.lexeme? with
  | some l => l.kind.endsOperand
  | none => afterOperand

def lex (afterOperand : Bool) (piece : Piece) : List Char → List Item
  | [] => piece.items .strict 0 ++ [.token ⟨⟨.eof, ""⟩, 0⟩]
  | c :: cs =>
    match piece.extend? c with
    | some piece => lex afterOperand piece cs
    | none =>
      piece.items .strict 0 ++
        lex (piece.endsOperand afterOperand) (.begin (piece.endsOperand afterOperand) c) cs

theorem Piece.map_items (f : Nat → Nat) (p : Piece) (pos : Nat) :
    (p.items .strict pos).map (Item.mapPos f) = p.items .strict (f pos) := by
  unfold items
  split <;> rfl

theorem map_run_eq_lex (s : State) (runes : List Rune) :
    (s.run .strict .complete runes).map (Item.mapPos fun _ => 0) =
      lex s.afterOperand s.piece (runes.map Rune.char) := by
  induction runes generalizing s with
  | nil =>
    rw [State.run, State.finish, List.map_append, State.items, Piece.map_items]
    rfl
  | cons r runes ih =>
    rw [State.run, List.map_cons, lex]
    cases s.piece.extend? r.char with
    | some q => exact ih { s with pos := s.pos + r.width, piece := q }
    | none =>
      simp only
      rw [List.map_append, State.items, Piece.map_items, ih]
      rfl

/-- What a source scans to, but for the positions, when its text is `text`. -/
theorem map_items_ofString (text : String) :
    (Source.ofString text).items.map (Item.mapPos fun _ => 0) = lex false .blank text.toList := by
  rw [Source.items]
  refine (map_run_eq_lex State.initial _).trans ?_
  show lex false .blank ((Rune.decode (Bytes.ofString text)).map Rune.char) = _
  rw [Rune.decode_ofString, List.map_map]
  exact congrArg _ (List.map_id _)

/-! ### Parts of a text -/

section
variable {a : Bool} {p : Piece} {cs rest : List Char} {c : Char}

theorem lex_piece (h : ∀ c ∈ cs.head?, p.extend? c = none) :
    lex a p cs = p.items .strict 0 ++ lex (p.endsOperand a) .blank cs := by
  cases cs with
  | nil => rfl
  | cons c cs =>
    have hc := h c rfl
    rw [lex, hc]
    rfl

theorem lex_blank_cons : lex a .blank (c :: cs) = lex a (.begin a c) cs := by
  rw [lex]
  rfl

theorem lex_digits {acc ds : List Char} (h : ∀ d ∈ ds, isDigit d = true) :
    lex a (.digits acc) (ds ++ rest) = lex a (.digits (ds.reverse ++ acc)) rest := by
  induction ds generalizing acc with
  | nil => rfl
  | cons d ds ih =>
    have hd : (Piece.digits acc).extend? d = some (.digits (d :: acc)) := if_pos (h d (by simp))
    rw [List.cons_append, lex, hd]
    simp only
    rw [ih fun x hx => h x (by simp [hx])]
    simp

theorem lex_word {acc ds : List Char} (h : ∀ d ∈ ds, isWordChar d = true) :
    lex a (.word acc) (ds ++ rest) = lex a (.word (ds.reverse ++ acc)) rest := by
  induction ds generalizing acc with
  | nil => rfl
  | cons d ds ih =>
    have hd : (Piece.word acc).extend? d = some (.word (d :: acc)) := if_pos (h d (by simp))
    rw [List.cons_append, lex, hd]
    simp only
    rw [ih fun x hx => h x (by simp [hx])]
    simp

/-- No word and no numeral goes on into `rest`. -/
def Boundary (rest : List Char) : Prop := ∀ c ∈ rest.head?, isWordChar c = false

theorem Boundary.not_isDigit (h : Boundary rest) : ∀ c ∈ rest.head?, isDigit c = false := by
  intro c hc
  have hw := h c hc
  rw [isWordChar, Bool.or_eq_false_iff] at hw
  exact hw.2

theorem isDigit_iff : isDigit c = true ↔ 0x30 ≤ c.toNat ∧ c.toNat ≤ 0x39 := by
  simp only [isDigit, Bool.and_eq_true, decide_eq_true_eq, Char.le_def, UInt32.le_iff_toNat_le]
  rfl

theorem isWordStart_iff : isWordStart c = true ↔
    c.toNat = 0x5F ∨ 0x61 ≤ c.toNat ∧ c.toNat ≤ 0x7A ∨ 0x41 ≤ c.toNat ∧ c.toNat ≤ 0x5A := by
  simp only [isWordStart, Bool.or_eq_true, Bool.and_eq_true, beq_iff_eq, decide_eq_true_eq, Char.le_def,
    UInt32.le_iff_toNat_le, ← Char.toNat_inj, or_assoc]
  rfl

theorem begin_digit (h : isDigit c = true) : Piece.begin a c = .digits [c] := by
  have := isDigit_iff.1 h
  have hb := isBlank_eq_false (c := c) (by omega) (by omega)
  simp [Piece.begin, hb, h]

theorem begin_word (h : isWordStart c = true) : Piece.begin a c = .word [c] := by
  have hw := isWordStart_iff.1 h
  have hb := isBlank_eq_false (c := c) (by omega) (by omega)
  have hd : ¬ isDigit c = true := by
    rw [isDigit_iff]
    omega
  have hm : c ≠ '-' := by
    rintro rfl
    revert h
    decide
  simp [Piece.begin, hb, hd, hm, h]

theorem lex_symbol {k : Kind} {t : String} :
    lex a (.symbol k t) rest = .token ⟨⟨k, t⟩, 0⟩ :: lex k.endsOperand .blank rest :=
  lex_piece fun _ _ => rfl

theorem lex_space : lex a .blank (' ' :: rest) = lex a .blank rest := lex_piece fun _ _ => rfl

theorem lex_openParen :
    lex a .blank ('(' :: rest) = .token ⟨⟨.openParen, "("⟩, 0⟩ :: lex false .blank rest :=
  lex_symbol

theorem lex_closeParen :
    lex a .blank (')' :: rest) = .token ⟨⟨.closeParen, ")"⟩, 0⟩ :: lex true .blank rest :=
  lex_symbol

theorem lex_comma : lex a .blank (',' :: rest) = .token ⟨⟨.comma, ","⟩, 0⟩ :: lex false .blank rest :=
  lex_symbol

theorem lex_assign :
    lex a .blank ('=' :: ' ' :: rest) = .token ⟨⟨.assign, "="⟩, 0⟩ :: lex false .blank rest :=
  lex_piece (p := .relation '=') (by simp [Piece.extend?])

/-- A minus that is no sign. -/
theorem lex_minus (h : isDigit c = false) :
    lex false .blank ('-' :: c :: rest) = .token ⟨⟨.minus, "-"⟩, 0⟩ :: lex false .blank (c :: rest) :=
  lex_piece (p := .sign) (by simp [Piece.extend?, h])

/-- A word is a token of its own. -/
theorem lex_isWord {word : String} (h : IsWord word.toList) (hr : Boundary rest) :
    lex a .blank (word.toList ++ rest) =
      .token ⟨⟨Kind.ofWord word, word⟩, 0⟩ :: lex (Kind.ofWord word).endsOperand .blank rest := by
  obtain ⟨d, ds, hw, hd, hds⟩ := h
  obtain rfl : word = String.ofList (d :: ds) := by rw [← hw, String.ofList_toList]
  rw [String.toList_ofList, List.cons_append, lex_blank_cons, begin_word hd, lex_word hds,
    lex_piece fun c hc => ?_]
  · simp [Piece.items, Piece.lexeme?, Piece.endsOperand]
  · simp [Piece.extend?, hr c hc]

theorem boundary_cons (h : isWordChar c = false) (rest : List Char) : Boundary (c :: rest) := by
  intro x hx
  obtain rfl : c = x := by simpa using hx
  exact h

theorem lex_keyword (word : String) (kind : Kind) (h : (word, kind) ∈ Kind.keywords) :
    lex a .blank (word.toList ++ ' ' :: rest) =
      .token ⟨⟨kind, word⟩, 0⟩ :: lex false .blank rest := by
  have hk : IsWord word.toList ∧ Kind.ofWord word = kind ∧ kind.endsOperand = false := by
    simp only [Kind.keywords, List.mem_cons, List.not_mem_nil, or_false] at h
    rcases h with h | h | h | h | h | h <;> cases h <;>
      exact ⟨⟨_, _, rfl, by decide, List.all_eq_true.1 (by decide)⟩, rfl, rfl⟩
  rw [lex_isWord hk.1 (boundary_cons (by decide) _), hk.2.1, hk.2.2, lex_space]

end

end Octal.Scan
