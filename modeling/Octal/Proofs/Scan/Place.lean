import Octal.Proofs.Numeral
import Octal.Proofs.Rune
import Octal.Proofs.Scan.Lex

/-!
# Where items stand

An item has the offset of the first of the characters it is made of, and the end of the input has the length of the
text (`Source.stands_of_mem`). While a piece grows, the runes before it are those up to the start that the state
has noted, and the runes in it spell what the piece holds. A numeral is made of decimal digits, so
that all that can be wrong with one is a digit 8 or 9, or its size (`Numeral.error_of_isDigits`).
-/

namespace Octal

open Scan Text

/-- One decimal digit or more, after a minus or none. -/
def IsDigits (cs : List Char) : Prop :=
  ∃ ds, ds ≠ [] ∧ (∀ d ∈ ds, isDigit d = true) ∧ (cs = ds ∨ cs = '-' :: ds)

theorem IsDigits.snoc {cs : List Char} {c : Char} (h : IsDigits cs) (hc : isDigit c = true) : IsDigits (cs ++ [c]) := by
  obtain ⟨ds, -, hd, hcs⟩ := h
  refine ⟨ds ++ [c], by simp, ?_, ?_⟩
  · intro d hm
    rcases List.mem_append.1 hm with hm | hm
    · exact hd d hm
    · rwa [List.mem_singleton.1 hm]
  · rcases hcs with rfl | rfl
    · exact .inl rfl
    · exact .inr rfl

namespace Numeral
variable {e : Error} {cs ds : List Char}

theorem eq_of_not_isOctalDigit {c : Char} (h : isDigit c = true) (h' : isOctalDigit c = false) :
    c = '8' ∨ c = '9' := by
  have hd := isDigit_iff.1 h
  have ho : ¬ (0x30 ≤ c.toNat ∧ c.toNat ≤ 0x37) := fun ho => by
    rw [isOctalDigit_iff.2 ho] at h'
    cases h'
  have hc : c.toNat = 0x38 ∨ c.toNat = 0x39 := by omega
  exact hc.imp Char.toNat_inj.1 Char.toNat_inj.1

theorem error_of_decodeDigits {negative : Bool} (hne : ds ≠ []) (hd : ∀ d ∈ ds, isDigit d = true)
    (h : decodeDigits negative ds = .error e) : e = .overflow ∨ e = .badDigit '8' ∨ e = .badDigit '9' := by
  have hempty : ds.isEmpty = false := by simpa using hne
  rw [decodeDigits, hempty] at h
  simp only [Bool.false_eq_true, if_false] at h
  split at h
  · next c hc =>
    cases h
    have ho : isOctalDigit c = false := by simpa using List.find?_some hc
    rcases eq_of_not_isOctalDigit (hd c (List.mem_of_find?_eq_some hc)) ho with rfl | rfl
    · exact .inr (.inl rfl)
    · exact .inr (.inr rfl)
  · rcases bind_eq_error.1 h with h | ⟨n, -, h⟩
    · exact .inl (error_of_magnitude h)
    · exact .inl (error_of_signed h)

/-- A string of digits is never empty and never has another character than 8 or 9 that is no octal digit. -/
theorem error_of_isDigits (hcs : IsDigits cs) (h : decode cs = .error e) :
    e = .overflow ∨ e = .badDigit '8' ∨ e = .badDigit '9' := by
  obtain ⟨ds, hne, hd, hcs⟩ := hcs
  have hblank : ∀ d ∈ ds, isBlank d = false := fun d hm => by
    have := isDigit_iff.1 (hd d hm)
    exact isBlank_eq_false (by omega) (by omega)
  have htrim : trimChars cs = cs := by
    refine strip_eq_self fun c hc => ?_
    rcases hcs with rfl | rfl
    · exact hblank c hc
    · rcases List.mem_cons.1 hc with rfl | hc
      · decide
      · exact hblank c hc
  rw [decode, htrim] at h
  split at h
  · next ds' =>
    rcases hcs with rfl | hcs
    · exact absurd (hd '-' List.mem_cons_self) (by decide)
    · cases hcs
      exact error_of_decodeDigits hne hd h
  · next hsign =>
    rcases hcs with rfl | rfl
    · exact error_of_decodeDigits hne hd h
    · exact absurd rfl (hsign ds)

end Numeral

/-- `cs` is how the lexeme is written. -/
structure Lexeme.Written (l : Lexeme) (cs : List Char) : Prop where
  text_eq : l.text.toList = cs
  kind_ne_eof : l.kind ≠ .eof
  isDigits : l.kind = .number → IsDigits cs

namespace Scan

namespace Piece

/-- `cs` is what the piece has been made from so far. -/
def Holds : Piece → List Char → Prop
  | blank, _ => True
  | stray c, cs => cs = [c]
  | digits text, cs => cs = text.reverse ∧ IsDigits cs
  | word text, cs => cs = text.reverse
  | sign, cs => cs = ['-']
  | relation r, cs => cs = [r]
  | symbol kind text, cs => cs = text.toList ∧ kind ≠ .eof ∧ kind ≠ .number

variable {p q : Piece} {c : Char} {cs : List Char}

theorem holds_begin (afterOperand : Bool) (c : Char) : (begin afterOperand c).Holds [c] := by
  unfold begin
  split
  · trivial
  split
  · next h => exact ⟨rfl, [c], by simp, by simpa using h, .inl rfl⟩
  split
  · next h =>
    obtain rfl : c = '-' := by simpa using (Bool.and_eq_true_iff.1 h).1
    exact rfl
  split
  · exact rfl
  split
  · exact rfl
  split
  · next kind h =>
    refine ⟨by simp, ?_⟩
    unfold punctuation? at h
    split at h <;> cases h <;> decide
  · exact rfl

theorem Holds.extend (h : p.Holds cs) (hq : p.extend? c = some q) : q.Holds (cs ++ [c]) := by
  cases p with
  | digits text =>
    simp only [extend?, Option.ite_none_right_eq_some] at hq
    obtain ⟨hc, hq⟩ := hq
    cases hq
    obtain ⟨rfl, hdigits⟩ := h
    exact ⟨by simp, hdigits.snoc hc⟩
  | word text =>
    simp only [extend?, Option.ite_none_right_eq_some] at hq
    cases hq.2
    obtain rfl : cs = text.reverse := h
    exact List.reverse_cons.symm
  | sign =>
    simp only [extend?, Option.ite_none_right_eq_some] at hq
    obtain ⟨hc, hq⟩ := hq
    cases hq
    obtain rfl : cs = ['-'] := h
    exact ⟨rfl, [c], by simp, by simpa using hc, .inr rfl⟩
  | relation r =>
    simp only [extend?, Option.ite_none_right_eq_some] at hq
    obtain ⟨rfl, hq⟩ := hq
    cases hq
    obtain rfl : cs = [r] := h
    exact ⟨by simp, by decide, by decide⟩
  | blank | stray | symbol => cases hq

theorem Holds.written (h : p.Holds cs) {l : Lexeme} (hl : p.lexeme? = some l) : l.Written cs := by
  cases p with
  | blank | stray => cases hl
  | digits text =>
    cases hl
    exact ⟨by simp [h.1], by simp, fun _ => h.2⟩
  | word text =>
    cases hl
    obtain rfl : cs = text.reverse := h
    have hm := Kind.ofWord_mem (String.ofList text.reverse)
    refine ⟨by simp, fun (hk : Kind.ofWord _ = .eof) => ?_, fun (hk : Kind.ofWord _ = .number) => ?_⟩
    · simp [hk] at hm
    · simp [hk] at hm
  | sign =>
    cases hl
    exact ⟨h.symm, by simp, by simp⟩
  | relation r =>
    rw [lexeme?] at hl
    split at hl <;> cases hl
    obtain rfl : cs = [r] := h
    by_cases hr : r = '='
    · exact ⟨by simp, by simp [hr], by simp [hr]⟩
    · exact ⟨by simp, by simp [hr], by simp [hr]⟩
  | symbol kind text =>
    cases hl
    exact ⟨h.1.symm, h.2.1, fun hk => absurd hk h.2.2⟩

theorem Holds.eq_of_stray? (h : p.Holds cs) (hc : p.stray? = some c) : cs = [c] := by
  cases p with
  | stray =>
    cases hc
    exact h
  | relation r =>
    simp only [stray?, Option.ite_none_right_eq_some] at hc
    cases hc.2
    exact h
  | blank | digits | word | sign | symbol => cases hc

end Piece

end Scan

/-- The text has the characters `cs` at the offset `pos`. -/
def Bytes.HasAt (text : Bytes) (pos : Nat) (cs : List Char) : Prop :=
  ∃ before runes after, Rune.decode text = before ++ runes ++ after ∧ (Rune.encode before).length = pos ∧
    runes.map Rune.char = cs

theorem Bytes.HasAt.le_length {text : Bytes} {pos : Nat} {cs : List Char} (h : text.HasAt pos cs) :
    pos ≤ text.length := by
  obtain ⟨before, runes, after, hd, rfl, -⟩ := h
  have ht := congrArg List.length (Rune.encode_decode text)
  rw [hd, Rune.encode, List.flatMap_append, List.flatMap_append, List.length_append, List.length_append] at ht
  rw [Rune.encode]
  omega

/-- The item is in the text where it says it is: a token is written there, unless it is the end of the text, and
a stray character is one of the text. -/
def Item.Stands (text : Bytes) : Item → Prop
  | .token t => t.kind = .eof ∧ t.pos = text.length ∨ ∃ cs, t.toLexeme.Written cs ∧ text.HasAt t.pos cs
  | .stray pos c => text.HasAt pos [c]
  | .failed _ => True

namespace Scan.State

theorem encode_append (runes runes' : List Rune) :
    Rune.encode (runes ++ runes') = Rune.encode runes ++ Rune.encode runes' := List.flatMap_append

/-- After the runes `before` and `held`, of which the piece has `held`. -/
structure After (before held : List Rune) (s : State) : Prop where
  start_eq : s.start = (Rune.encode before).length
  pos_eq : s.pos = (Rune.encode (before ++ held)).length
  holds : s.piece.Holds (held.map Rune.char)

namespace After
variable {s : State} {before held rest : List Rune} {text : Bytes}

theorem extend (h : s.After before held) {r : Rune} {q : Piece} (hq : s.piece.extend? r.char = some q) :
    After before (held ++ [r]) { s with pos := s.pos + r.width, piece := q } := by
  refine ⟨h.start_eq, ?_, ?_⟩
  · rw [← List.append_assoc, encode_append, List.length_append, ← h.pos_eq]
    simp [Rune.encode, Rune.width]
  · rw [List.map_append]
    exact h.holds.extend hq

theorem restart (h : s.After before held) (r : Rune) : (s.restart r).After (before ++ held) [r] := by
  refine ⟨h.pos_eq, ?_, Piece.holds_begin _ _⟩
  rw [encode_append, List.length_append, ← h.pos_eq]
  simp [State.restart, Rune.encode, Rune.width]

theorem stands_of_mem_items (h : s.After before held) (ht : Rune.decode text = before ++ held ++ rest)
    {item : Item} (hi : item ∈ s.items .strict) : item.Stands text := by
  have hat : text.HasAt s.start (held.map Rune.char) := ⟨before, held, rest, ht, h.start_eq.symm, rfl⟩
  unfold items Piece.items at hi
  split at hi
  · next l hl =>
    obtain rfl := List.mem_singleton.1 hi
    exact .inr ⟨_, h.holds.written hl, hat⟩
  · next c _ hc =>
    obtain rfl := List.mem_singleton.1 hi
    rw [h.holds.eq_of_stray? hc] at hat
    exact hat
  · cases hi

theorem stands_of_mem_run (h : s.After before held) (ht : Rune.decode text = before ++ held ++ rest)
    {ending : Ending} {item : Item} (hi : item ∈ s.run .strict ending rest) : item.Stands text := by
  induction rest generalizing s before held with
  | nil =>
    cases ending with
    | complete =>
      rcases List.mem_append.1 hi with hi | hi
      · exact h.stands_of_mem_items ht hi
      · obtain rfl := List.mem_singleton.1 hi
        rw [List.append_nil] at ht
        refine .inl ⟨rfl, ?_⟩
        show s.pos = text.length
        rw [h.pos_eq, ← ht, Rune.encode_decode]
    | cutOff cause =>
      rcases List.mem_append.1 hi with hi | hi
      · split at hi
        · cases hi
        · exact h.stands_of_mem_items ht hi
      · obtain rfl := List.mem_singleton.1 hi
        trivial
  | cons r rest ih =>
    rw [run] at hi
    split at hi
    · next q hq => exact ih (h.extend hq) (by simpa using ht) hi
    · rcases List.mem_append.1 hi with hi | hi
      · exact h.stands_of_mem_items ht hi
      · exact ih (h.restart r) (by simpa using ht) hi

end After

end Scan.State

/-- Every item of a source is in its text, where it says. -/
theorem Source.stands_of_mem_items {src : Source} {item : Item} (h : item ∈ src.items) : item.Stands src.text := by
  have hs : State.initial.After [] [] := ⟨rfl, rfl, trivial⟩
  exact hs.stands_of_mem_run rfl h

theorem Source.stands_of_mem {text : Bytes} {item : Item} (h : item ∈ (complete text).items) : item.Stands text :=
  stands_of_mem_items h

end Octal
