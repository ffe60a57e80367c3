import Mathlib
import Octal.Proofs.Scan.Tokenization

/-!
# Items in the order of the text

A scan finds its items from left to right (`Source.ordered_items`), and the tokens among them are lexemes whose texts
stand in the source where the tokens say (`Source.shown_of_mem`). For the tokens of a scan without errors this is part
of `Tokenization`. Here it is said of every source, cut off or not, whatever else the scan finds in it.
-/

namespace Octal

open Scan

/-- A keyword has one text. -/
theorem Lexeme.Fits.text_keyword {l : Lexeme} (h : l.Fits) {word : String}
    (hk : (word, l.kind) ∈ Kind.keywords) : l.text = word := by
  cases h with
  | numeral => exact absurd hk (by simp [Kind.keywords])
  | symbol hs =>
    have hdisjoint : ∀ p ∈ Kind.symbols, ∀ q ∈ Kind.keywords, q.2 ≠ p.1 := by decide
    exact absurd rfl (hdisjoint _ hs _ hk)
  | @word text _ =>
    have hinj : ∀ p ∈ Kind.keywords, ∀ q ∈ Kind.keywords, p.2 = q.2 → p.1 = q.1 := by decide
    cases hl : Kind.keywords.lookup text with
    | none =>
      rw [Kind.ofWord, hl] at hk
      exact absurd hk (by simp [Kind.keywords])
    | some kind =>
      rw [Kind.ofWord, hl] at hk
      obtain ⟨before, after, hsplit, -⟩ := List.lookup_eq_some_iff.1 hl
      exact hinj (text, kind) (by simp [hsplit]) _ hk rfl

def Item.pos? : Item → Option Nat
  | .token t => some t.pos
  | .stray pos _ => some pos
  | .failed _ => none

namespace Scan

namespace Piece
variable {p q : Piece} {c : Char}

/-- The piece is the beginning of a lexeme that fits its kind, or of none. -/
def Fits : Piece → Prop
  | digits text => IsDigits text.reverse
  | word text => IsWord text.reverse
  | relation r => isRelation r = true
  | symbol kind text => (kind, text) ∈ Kind.symbols
  | _ => True

theorem fits_begin (afterOperand : Bool) (c : Char) : (begin afterOperand c).Fits := by
  unfold begin
  split
  · trivial
  split
  · next h => exact ⟨[c], List.cons_ne_nil _ _, by simpa using h, .inl rfl⟩
  split
  · trivial
  split
  · next h => exact ⟨c, [], rfl, h, by simp⟩
  split
  · next h => exact h
  split
  · next kind h =>
    show (kind, String.singleton c) ∈ Kind.symbols
    unfold punctuation? at h
    split at h <;> cases h <;> decide
  · trivial

theorem Fits.extend (h : p.Fits) (hq : p.extend? c = some q) : q.Fits := by
  cases p with
  | digits text =>
    simp only [extend?, Option.ite_none_right_eq_some] at hq
    obtain ⟨hc, hq⟩ := hq
    cases hq
    show IsDigits (c :: text).reverse
    rw [List.reverse_cons]
    exact h.snoc hc
  | word text =>
    simp only [extend?, Option.ite_none_right_eq_some] at hq
    obtain ⟨hc, hq⟩ := hq
    cases hq
    show IsWord (c :: text).reverse
    rw [List.reverse_cons]
    exact h.snoc hc
  | sign =>
    simp only [extend?, Option.ite_none_right_eq_some] at hq
    obtain ⟨hc, hq⟩ := hq
    cases hq
    exact ⟨[c], List.cons_ne_nil _ _, by simpa using hc, .inr rfl⟩
  | relation r =>
    simp only [extend?, Option.ite_none_right_eq_some] at hq
    obtain ⟨rfl, hq⟩ := hq
    cases hq
    show (Kind.compare, String.ofList [r, '=']) ∈ Kind.symbols
    rcases isRelation_iff.1 h with rfl | rfl | rfl | rfl <;> decide
  | blank | stray | symbol => cases hq

theorem Fits.lexeme (h : p.Fits) {l : Lexeme} (hl : p.lexeme? = some l) : l.Fits := by
  cases p with
  | blank | stray => cases hl
  | digits text =>
    cases hl
    refine .numeral ?_
    rw [String.toList_ofList]
    exact h
  | word text =>
    cases hl
    refine .word ?_
    rw [String.toList_ofList]
    exact h
  | sign =>
    cases hl
    exact .symbol (by decide)
  | relation r =>
    refine .symbol ?_
    rcases isRelation_iff.1 h with rfl | rfl | rfl | rfl <;> cases hl <;> decide
  | symbol kind text =>
    cases hl
    exact .symbol h

end Piece

namespace State
variable {s : State} {ending : Ending} {runes : List Rune}

theorem fits_of_mem_items (h : s.piece.Fits) {t : Token} (ht : .token t ∈ s.items .strict) : t.toLexeme.Fits :=
  h.lexeme (Piece.lexeme?_of_mem_items ht)

theorem fits_of_mem_run (h : s.piece.Fits) {t : Token} (ht : .token t ∈ s.run .strict ending runes) :
    t.kind = .eof ∨ t.toLexeme.Fits := by
  induction runes generalizing s with
  | nil =>
    cases ending with
    | complete =>
      rcases List.mem_append.1 ht with ht | ht
      · exact .inr (fits_of_mem_items h ht)
      · cases List.mem_singleton.1 ht
        exact .inl rfl
    | cutOff cause =>
      rcases List.mem_append.1 ht with ht | ht
      · split at ht
        · cases ht
        · exact .inr (fits_of_mem_items h ht)
      · cases List.mem_singleton.1 ht
  | cons r runes ih =>
    cases hq : s.piece.extend? r.char with
    | some q =>
      rw [run_of_extend _ _ _ hq] at ht
      exact ih (h.extend hq) ht
    | none =>
      rw [run_of_end _ _ _ hq] at ht
      rcases List.mem_append.1 ht with ht | ht
      · exact .inr (fits_of_mem_items h ht)
      · exact ih (Piece.fits_begin _ _) ht

/-- The piece is one item at most, and then there are runes in it. -/
theorem positions_items (hs : s.Begun) :
    (s.items .strict).filterMap Item.pos? = [] ∨
      (s.items .strict).filterMap Item.pos? = [s.start] ∧ s.start < s.pos := by
  rcases hs with hlt | ⟨-, hblank⟩
  · unfold items Piece.items
    split
    · exact .inr ⟨rfl, hlt⟩
    · exact .inr ⟨rfl, hlt⟩
    · exact .inl rfl
  · rw [items, hblank]
    exact .inl rfl

/-- What comes after the piece comes after its start. -/
theorem ordered_append (hs : s.Begun) {later : List Nat} (hlater : later.Pairwise (· < ·))
    (hle : ∀ p ∈ later, s.pos ≤ p) :
    ((s.items .strict).filterMap Item.pos? ++ later).Pairwise (· < ·) ∧
      ∀ p ∈ (s.items .strict).filterMap Item.pos? ++ later, s.start ≤ p := by
  have hstart : ∀ p ∈ later, s.start ≤ p := fun p hp => hs.le.trans (hle p hp)
  rcases positions_items hs with hitems | ⟨hitems, hlt⟩
  · rw [hitems]
    exact ⟨hlater, hstart⟩
  · rw [hitems]
    refine ⟨.cons (fun p hp => hlt.trans_le (hle p hp)) hlater, ?_⟩
    intro p hp
    rcases List.mem_cons.1 hp with rfl | hp
    · exact le_rfl
    · exact hstart p hp

theorem ordered_run (hs : s.Begun) (hw : ∀ r ∈ runes, 0 < r.width) :
    ((s.run .strict ending runes).filterMap Item.pos?).Pairwise (· < ·) ∧
      ∀ p ∈ (s.run .strict ending runes).filterMap Item.pos?, s.start ≤ p := by
  induction runes generalizing s with
  | nil =>
    cases ending with
    | complete =>
      rw [run, finish, List.filterMap_append]
      exact ordered_append hs (List.pairwise_singleton _ _) (by simp [Item.pos?])
    | cutOff cause =>
      rw [run, finish, List.filterMap_append]
      split
      · exact ⟨.nil, List.forall_mem_nil _⟩
      · exact ordered_append hs .nil (List.forall_mem_nil _)
  | cons r runes ih =>
    obtain ⟨hr, hw⟩ := List.forall_mem_cons.1 hw
    cases hq : s.piece.extend? r.char with
    | some q =>
      rw [run_of_extend _ _ _ hq]
      exact ih (s := { s with pos := s.pos + r.width, piece := q })
        (.inl (Nat.lt_of_le_of_lt hs.le (Nat.lt_add_of_pos_right hr))) hw
    | none =>
      obtain ⟨hlater, hle⟩ := ih (begun_restart hr) hw
      rw [run_of_end _ _ _ hq, List.filterMap_append]
      exact ordered_append hs hlater hle

end State

end Scan

namespace Source
variable {src : Source} {t : Token}

theorem fits_of_mem (h : .token t ∈ src.items) : t.kind = .eof ∨ t.toLexeme.Fits :=
  State.fits_of_mem_run (s := State.initial) trivial h

theorem ordered_items (src : Source) : (src.items.filterMap Item.pos?).Pairwise (· < ·) :=
  (State.ordered_run (.inr ⟨rfl, rfl⟩) fun _ => Rune.width_pos_of_mem_decode).1

theorem shown_of_mem (h : .token t ∈ src.items) (hk : t.kind ≠ .eof) :
    src.text.slice t.pos t.stop = Bytes.ofString t.text := by
  have hfits := (fits_of_mem h).resolve_left hk
  rcases stands_of_mem_items h with ⟨heof, -⟩ | ⟨cs, hwritten, hat⟩
  · exact absurd heof hk
  · rw [Token.slice_eq_iff hfits, hwritten.text_eq]
    exact hat

end Source

end Octal
