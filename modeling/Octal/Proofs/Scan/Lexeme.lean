import Octal.Operator
import Octal.Token.Scan

/-!
# What the scanner makes of a text

A token has a text that fits its kind (`Lexeme.Proper`): an identifier is a word that is no keyword,
and a comparison is one of the operators. The end of the input is no such token. It stands once, after
everything else (`Source.scan_eq`). A lenient scan finds what a strict one finds, without the characters
that are no tokens (`Source.scan_eq_filter`).
-/

namespace Octal

namespace Scan

/-- A letter or underscore, then letters, digits and underscores. -/
def IsWord (text : List Char) : Prop :=
  ∃ c cs, text = c :: cs ∧ isWordStart c = true ∧ ∀ d ∈ cs, isWordChar d = true

theorem IsWord.snoc {text : List Char} {c : Char} (h : IsWord text) (hc : isWordChar c = true) : IsWord (text ++ [c]) := by
  obtain ⟨d, ds, rfl, hd, hds⟩ := h
  refine ⟨d, ds ++ [c], rfl, hd, ?_⟩
  intro x hx
  rcases List.mem_append.1 hx with hx | hx
  · exact hds x hx
  · rwa [List.mem_singleton.1 hx]

end Scan

open Scan

/-- The text fits the kind. -/
def Lexeme.Proper (l : Lexeme) : Prop :=
  match l.kind with
  | .eof => False
  | .ident => IsWord l.text.toList ∧ Kind.ofWord l.text = .ident
  | .compare => (Operator.comparison? l.text).isSome
  | _ => True

theorem Kind.ofWord_mem (word : String) :
    Kind.ofWord word ∈ [Kind.ident, .kwIf, .kwThen, .kwElse, .kwLet, .kwIn, .kwDef] := by
  simp only [ofWord, keywords, List.lookup_cons, List.lookup_nil]
  repeat' split
  all_goals decide

namespace Scan.Piece

/-- The piece is, or can become, a proper lexeme. -/
def Proper : Piece → Prop
  | word text => IsWord text.reverse
  | relation c => isRelation c = true
  | symbol kind text => Lexeme.Proper ⟨kind, text⟩
  | _ => True

variable {p q : Piece} {c : Char}

theorem proper_begin (afterOperand : Bool) (c : Char) : (begin afterOperand c).Proper := by
  unfold begin
  split
  · trivial
  split
  · trivial
  split
  · trivial
  split
  · next h => exact ⟨c, [], rfl, h, by simp⟩
  split
  · next h => exact h
  split
  · next kind h =>
    unfold punctuation? at h
    split at h <;> cases h <;> trivial
  · trivial

theorem isRelation_iff : isRelation c = true ↔ c = '=' ∨ c = '<' ∨ c = '>' ∨ c = '!' := by
  simp [isRelation, or_assoc]

theorem Proper.extend (h : p.Proper) (hq : p.extend? c = some q) : q.Proper := by
  cases p with
  | digits text =>
    simp only [extend?, Option.ite_none_right_eq_some] at hq
    cases hq.2
    trivial
  | word text =>
    simp only [extend?, Option.ite_none_right_eq_some] at hq
    obtain ⟨hc, hq⟩ := hq
    cases hq
    show IsWord (c :: text).reverse
    rw [List.reverse_cons]
    exact h.snoc hc
  | sign =>
    simp only [extend?, Option.ite_none_right_eq_some] at hq
    cases hq.2
    trivial
  | relation r =>
    simp only [extend?, Option.ite_none_right_eq_some] at hq
    obtain ⟨rfl, hq⟩ := hq
    cases hq
    rcases isRelation_iff.1 h with rfl | rfl | rfl | rfl <;> rfl
  | blank | stray | symbol => cases hq

theorem Proper.lexeme (h : p.Proper) {l : Lexeme} (hl : p.lexeme? = some l) : l.Proper := by
  cases p with
  | blank | stray => cases hl
  | digits | sign => cases hl; trivial
  | word text =>
    cases hl
    have hm := Kind.ofWord_mem (String.ofList text.reverse)
    simp only [List.mem_cons, List.not_mem_nil, or_false] at hm
    rcases hm with hm | hm | hm | hm | hm | hm | hm <;> simp only [Lexeme.Proper, hm]
    rw [String.toList_ofList]
    exact ⟨h, trivial⟩
  | relation r =>
    rcases isRelation_iff.1 h with rfl | rfl | rfl | rfl <;> cases hl <;> first | rfl | trivial
  | symbol kind text => cases hl; exact h

theorem lexeme?_of_mem_items {lexing : Lexing} {pos : Nat} {t : Token} (h : .token t ∈ p.items lexing pos) :
    p.lexeme? = some t.toLexeme := by
  unfold items at h
  split at h
  · next l hl =>
    obtain rfl : t = ⟨l, pos⟩ := by simpa using h
    exact hl
  · cases lexing <;> simp at h
  · simp at h

end Scan.Piece

/-- The last item of a source of `pos` bytes. -/
def Ending.item (pos : Nat) : Ending → Item
  | complete => .token ⟨⟨.eof, ""⟩, pos⟩
  | cutOff cause => .failed cause

namespace Scan.State
variable {s : State} {lexing : Lexing}

theorem proper_of_mem_items (h : s.piece.Proper) {t : Token} (ht : .token t ∈ s.items lexing) :
    t.toLexeme.Proper :=
  h.lexeme (Piece.lexeme?_of_mem_items ht)

theorem finish_eq (h : s.piece.Proper) (ending : Ending) :
    ∃ init, s.finish lexing ending = init ++ [ending.item s.pos] ∧
      ∀ t, .token t ∈ init → t.toLexeme.Proper := by
  cases ending with
  | complete => exact ⟨s.items lexing, rfl, fun t => proper_of_mem_items h⟩
  | cutOff cause =>
    refine ⟨_, rfl, fun t ht => ?_⟩
    split at ht
    · simp at ht
    · exact proper_of_mem_items h ht

theorem run_eq (h : s.piece.Proper) (ending : Ending) (runes : List Rune) :
    ∃ init pos, s.run lexing ending runes = init ++ [ending.item pos] ∧
      ∀ t, .token t ∈ init → t.toLexeme.Proper := by
  induction runes generalizing s with
  | nil =>
    obtain ⟨init, h1, h2⟩ := finish_eq h ending
    exact ⟨init, s.pos, h1, h2⟩
  | cons r runes ih =>
    rw [run]
    split
    · next q hq => exact ih (h.extend hq)
    · obtain ⟨init, pos, h1, h2⟩ := ih (s := s.restart r) (Piece.proper_begin _ _)
      refine ⟨s.items lexing ++ init, pos, by rw [h1, List.append_assoc], fun t ht => ?_⟩
      rcases List.mem_append.1 ht with ht | ht
      · exact proper_of_mem_items h ht
      · exact h2 t ht

end Scan.State

/-- The items that a scan reports. A lenient one skips what is no token. -/
def Lexing.admits : Lexing → Item → Bool
  | .lenient, .stray _ _ => false
  | _, _ => true

namespace Scan

theorem Piece.items_eq_filter (p : Piece) (lexing : Lexing) (pos : Nat) :
    p.items lexing pos = (p.items .strict pos).filter lexing.admits := by
  unfold items
  split
  · cases lexing <;> rfl
  · cases lexing <;> rfl
  · rfl

theorem State.finish_eq_filter (s : State) (lexing : Lexing) (ending : Ending) :
    s.finish lexing ending = (s.finish .strict ending).filter lexing.admits := by
  have hitems : s.items lexing = (s.items .strict).filter lexing.admits := s.piece.items_eq_filter lexing s.start
  cases ending with
  | complete =>
    rw [finish, finish, hitems, List.filter_append]
    cases lexing <;> rfl
  | cutOff cause =>
    rw [finish, finish, hitems, List.filter_append]
    split <;> cases lexing <;> rfl

/-- Whether stray characters are reported or skipped makes no difference to the states of the loop, so the loop that
skips them finds the rest of what the other one finds. -/
theorem State.run_eq_filter (s : State) (lexing : Lexing) (ending : Ending) (runes : List Rune) :
    s.run lexing ending runes = (s.run .strict ending runes).filter lexing.admits := by
  induction runes generalizing s with
  | nil => exact s.finish_eq_filter lexing ending
  | cons r runes ih =>
    rw [run, run]
    split
    · exact ih _
    · rw [ih, List.filter_append, items, items, Piece.items_eq_filter]

end Scan

namespace Source

/-- Everything a source consists of. -/
def items (src : Source) : List Item := src.scan .strict

theorem scan_strict (src : Source) : src.scan .strict = src.items := rfl

theorem scan_eq_filter (lexing : Lexing) (src : Source) : src.scan lexing = src.items.filter lexing.admits :=
  State.run_eq_filter _ lexing src.ending _

theorem scan_sublist (lexing : Lexing) (src : Source) : (src.scan lexing).Sublist src.items := by
  rw [scan_eq_filter]
  exact List.filter_sublist

theorem mem_items_of_mem_scan {lexing : Lexing} {src : Source} {item : Item} (h : item ∈ src.scan lexing) :
    item ∈ src.items :=
  (src.scan_sublist lexing).subset h

/-- The last item of a source is its ending, and every token before it is proper. -/
theorem scan_eq (lexing : Lexing) (src : Source) :
    ∃ init pos, src.scan lexing = init ++ [src.ending.item pos] ∧
      ∀ t, .token t ∈ init → t.toLexeme.Proper :=
  State.run_eq (s := State.initial) trivial src.ending _

/-- Where scanning meets no error, the end of the input comes last and only there. -/
theorem exists_eof_of_scan {lexing : Lexing} {src : Source} {ts : List Token}
    (h : src.scan lexing = ts.map .token) :
    ∃ init eof, ts = init ++ [eof] ∧ eof.kind = .eof ∧ ∀ t ∈ init, t.toLexeme.Proper := by
  obtain ⟨init, pos, hi, hp⟩ := src.scan_eq lexing
  obtain ⟨ts₁, ts₂, rfl, rfl, h2⟩ := List.map_eq_append_iff.1 (h.symm.trans hi)
  obtain ⟨eof, rfl, h3⟩ := List.map_eq_singleton_iff.1 h2
  refine ⟨ts₁, eof, rfl, ?_, fun t ht => hp t (List.mem_map_of_mem ht)⟩
  cases he : src.ending with
  | complete =>
    rw [he] at h3
    cases h3
    rfl
  | cutOff cause =>
    rw [he] at h3
    cases h3

end Source

end Octal
