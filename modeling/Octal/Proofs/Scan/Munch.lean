import Mathlib
import Octal.Proofs.Lenient
import Octal.Proofs.Render
import Octal.Proofs.Scan.Place
import Octal.Proofs.Spelling

/-!
# One token after the other

Which lexemes there are is a matter of their texts (`Lexeme.Fits`), and where one ends is a matter of the character
after it (`Lexeme.Ends`). Between two tokens the scanner meets white space, the only lexeme that ends there, or a
character at which no lexeme starts, and there is no fourth case (`fertile_of_starts`, `barren_iff`). So a scan without
errors reads its source as a sequence of such steps (`Segmented`), and every such sequence is the one the scanner takes.
-/

namespace Octal

open Scan Text

/-- The texts that are neither numerals nor words, with their kinds. -/
def Kind.symbols : List (Kind × String) :=
  [(plus, "+"), (minus, "-"), (times, "*"), (divide, "/"), (modulo, "%"), (power, "^"), (openParen, "("),
    (closeParen, ")"), (comma, ","), (semicolon, ";"), (assign, "="), (compare, "=="), (compare, "!="),
    (compare, "<"), (compare, ">"), (compare, "<="), (compare, ">=")]

namespace Lexeme

/-- The text is one that the kind has. -/
inductive Fits : Lexeme → Prop
  | numeral {text : String} : IsDigits text.toList → Fits ⟨.number, text⟩
  | word {text : String} : IsWord text.toList → Fits ⟨Kind.ofWord text, text⟩
  | symbol {kind : Kind} {text : String} : (kind, text) ∈ Kind.symbols → Fits ⟨kind, text⟩

/-- The lexeme ends before `rest`: nothing there belongs to it, and if it begins with a minus, that is a sign just when
a digit follows and no operand comes before. -/
structure Ends (l : Lexeme) (afterOperand : Bool) (rest : List Char) : Prop where
  numeral : l.kind = .number → ∀ c ∈ rest.head?, isDigit c = false
  word : IsWord l.text.toList → ∀ c ∈ rest.head?, isWordChar c = false
  relation : l.text ∈ ["=", "<", ">"] → rest.head? ≠ some '='
  sign : l.text.toList.head? = some '-' →
    (l.kind = .number ↔ (∃ c ∈ (l.text.toList ++ rest).tail.head?, isDigit c = true) ∧ afterOperand = false)

end Lexeme

theorem IsDigits.head {cs : List Char} (h : IsDigits cs) :
    ∃ c, cs.head? = some c ∧ (isDigit c = true ∨ c = '-') := by
  obtain ⟨ds, hne, hd, hcs⟩ := h
  obtain ⟨d, ds, rfl⟩ := List.exists_cons_of_ne_nil hne
  rcases hcs with rfl | rfl
  · exact ⟨d, rfl, .inl (hd d List.mem_cons_self)⟩
  · exact ⟨'-', rfl, .inr rfl⟩

namespace Scan

section
variable {cs : List Char}

theorem IsWord.head (h : IsWord cs) : ∃ c, cs.head? = some c ∧ isWordStart c = true := by
  obtain ⟨c, cs, rfl, hc, -⟩ := h
  exact ⟨c, rfl, hc⟩

theorem IsWord.not_isDigits (h : IsWord cs) : ¬ IsDigits cs := by
  intro hdigits
  obtain ⟨c, hc, hstart⟩ := h.head
  obtain ⟨d, hd, hdigit⟩ := hdigits.head
  obtain rfl : c = d := Option.some.inj (hc.symm.trans hd)
  rcases hdigit with hdigit | rfl
  · rw [not_isDigit_of_isWordStart hstart] at hdigit
    cases hdigit
  · cases hstart

end

/-! ### From the lexeme to the scan -/

namespace Piece
variable {a : Bool} {c : Char} {cs : List Char}

theorem foldlM_digits {acc : List Char} (h : ∀ d ∈ cs, isDigit d = true) :
    cs.foldlM extend? (digits acc) = some (digits (cs.reverse ++ acc)) := by
  induction cs generalizing acc with
  | nil => rfl
  | cons d cs ih =>
    obtain ⟨hd, h⟩ := List.forall_mem_cons.1 h
    have hext : (digits acc).extend? d = some (digits (d :: acc)) := if_pos hd
    rw [List.foldlM_cons, hext, Option.bind_eq_bind, Option.bind_some, ih h]
    simp

theorem foldlM_word {acc : List Char} (h : ∀ d ∈ cs, isWordChar d = true) :
    cs.foldlM extend? (word acc) = some (word (cs.reverse ++ acc)) := by
  induction cs generalizing acc with
  | nil => rfl
  | cons d cs ih =>
    obtain ⟨hd, h⟩ := List.forall_mem_cons.1 h
    have hext : (word acc).extend? d = some (word (d :: acc)) := if_pos hd
    rw [List.foldlM_cons, hext, Option.bind_eq_bind, Option.bind_some, ih h]
    simp

/-- The piece that the characters make, if they make one. -/
def spell (a : Bool) : List Char → Option Piece
  | [] => none
  | c :: cs => cs.foldlM extend? (begin a c)

end Piece

/-- The text of the lexeme makes a piece that is the lexeme and that `rest` does not extend. -/
def Grows (a : Bool) (l : Lexeme) (rest : List Char) : Prop :=
  ∃ q, Piece.spell a l.text.toList = some q ∧ q.lexeme? = some l ∧ ∀ d ∈ rest.head?, q.extend? d = none

section
variable {a : Bool} {l : Lexeme} {text : String} {rest : List Char}

theorem grows_numeral (h : IsDigits text.toList) (he : Lexeme.Ends ⟨.number, text⟩ a rest) :
    Grows a ⟨.number, text⟩ rest := by
  have hpiece : Piece.spell a text.toList = some (.digits text.toList.reverse) := by
    obtain ⟨ds, hne, hd, htext⟩ := h
    obtain ⟨d, ds, rfl⟩ := List.exists_cons_of_ne_nil hne
    obtain ⟨hd, hds⟩ := List.forall_mem_cons.1 hd
    rcases htext with htext | htext
    · rw [htext, Piece.spell, begin_digit hd, Piece.foldlM_digits hds, List.reverse_cons]
    · obtain ⟨-, rfl⟩ := (he.sign (by simp [htext])).1 rfl
      have hext : Piece.sign.extend? d = some (.digits [d, '-']) := if_pos hd
      rw [htext, Piece.spell]
      show (d :: ds).foldlM Piece.extend? Piece.sign = _
      rw [List.foldlM_cons, hext, Option.bind_eq_bind, Option.bind_some, Piece.foldlM_digits hds]
      simp
  refine ⟨_, hpiece, ?_, fun d hd => ?_⟩
  · rw [Piece.lexeme?, List.reverse_reverse, String.ofList_toList]
  · simp [Piece.extend?, he.numeral rfl d hd]

theorem grows_word (h : IsWord text.toList) (he : Lexeme.Ends ⟨Kind.ofWord text, text⟩ a rest) :
    Grows a ⟨Kind.ofWord text, text⟩ rest := by
  have hstop := he.word h
  have hpiece : Piece.spell a text.toList = some (.word text.toList.reverse) := by
    obtain ⟨c, cs, htext, hc, hcs⟩ := h
    rw [htext, Piece.spell, begin_word hc, Piece.foldlM_word hcs, List.reverse_cons]
  refine ⟨_, hpiece, ?_, fun d hd => ?_⟩
  · rw [Piece.lexeme?, List.reverse_reverse, String.ofList_toList]
  · simp [Piece.extend?, hstop d hd]

theorem grows_minus (he : Lexeme.Ends ⟨.minus, "-"⟩ a rest) : Grows a ⟨.minus, "-"⟩ rest := by
  cases a with
  | true => exact ⟨.symbol .minus "-", rfl, rfl, fun _ _ => rfl⟩
  | false =>
    refine ⟨.sign, rfl, rfl, fun d hd => ?_⟩
    have hdigit : isDigit d = false := by
      rw [← Bool.not_eq_true]
      intro hdigit
      have hnumber := (he.sign rfl).2 ⟨⟨d, hd, hdigit⟩, rfl⟩
      cases hnumber
    simp [Piece.extend?, hdigit]

theorem grows_relation {r : Char} (hl : (Piece.relation r).lexeme? = some l)
    (hspell : Piece.spell a l.text.toList = some (.relation r)) (hrest : rest.head? ≠ some '=') : Grows a l rest := by
  refine ⟨.relation r, hspell, hl, fun d hd => ?_⟩
  have hne : d ≠ '=' := fun heq => hrest (heq ▸ hd)
  simp [Piece.extend?, hne]

/-- All symbols but these four are complete. -/
theorem spell_symbol : ∀ p ∈ Kind.symbols, ∀ a, p.2 ∉ ["-", "=", "<", ">"] →
    Piece.spell a p.2.toList = some (.symbol p.1 p.2) := by
  decide

theorem grows_symbol {kind : Kind} (h : (kind, text) ∈ Kind.symbols) (he : Lexeme.Ends ⟨kind, text⟩ a rest) :
    Grows a ⟨kind, text⟩ rest := by
  by_cases hopen : text ∈ ["-", "=", "<", ">"]
  · simp only [List.mem_cons, List.not_mem_nil, or_false] at hopen
    rcases hopen with rfl | rfl | rfl | rfl
    · obtain rfl : kind = .minus := by simpa [Kind.symbols] using h
      exact grows_minus he
    · obtain rfl : kind = .assign := by simpa [Kind.symbols] using h
      exact grows_relation (r := '=') rfl (by cases a <;> rfl) (he.relation (by simp))
    · obtain rfl : kind = .compare := by simpa [Kind.symbols] using h
      exact grows_relation (r := '<') rfl (by cases a <;> rfl) (he.relation (by simp))
    · obtain rfl : kind = .compare := by simpa [Kind.symbols] using h
      exact grows_relation (r := '>') rfl (by cases a <;> rfl) (he.relation (by simp))
  · exact ⟨.symbol kind text, spell_symbol (kind, text) h a hopen, rfl, fun _ _ => rfl⟩

theorem grows_of_fits (h : l.Fits) (he : l.Ends a rest) : Grows a l rest := by
  cases h with
  | numeral h => exact grows_numeral h he
  | word h => exact grows_word h he
  | symbol h => exact grows_symbol h he

end

/-! ### Where lexemes end -/

section
variable {a : Bool} {kind : Kind} {text : String} {rest : List Char}

theorem not_mem_relations_of_head {c : Char} (h : text.toList.head? = some c) (hc : isRelation c = false) :
    text ∉ ["=", "<", ">"] := by
  intro hmem
  simp only [List.mem_cons, List.not_mem_nil, or_false] at hmem
  rcases hmem with rfl | rfl | rfl <;> cases h <;> cases hc

theorem not_isRelation_of_isWordChar {c : Char} (h : isWordChar c = true) : isRelation c = false := by
  rw [← Bool.not_eq_true]
  intro hrelation
  rcases Piece.isRelation_iff.1 hrelation with rfl | rfl | rfl | rfl <;> cases h

theorem ends_numeral (h : IsDigits text.toList) (hrest : ∀ c ∈ rest.head?, isDigit c = false)
    (ha : text.toList.head? = some '-' → a = false) : Lexeme.Ends ⟨.number, text⟩ a rest := by
  refine ⟨fun _ => hrest, fun hword => absurd h hword.not_isDigits, fun hmem => ?_, fun hsign => ?_⟩
  · obtain ⟨c, hc, hdigit | rfl⟩ := h.head
    · have hword : isWordChar c = true := Bool.or_eq_true_iff.2 (.inr hdigit)
      exact absurd hmem (not_mem_relations_of_head hc (not_isRelation_of_isWordChar hword))
    · exact absurd hmem (not_mem_relations_of_head hc rfl)
  · refine ⟨fun _ => ⟨?_, ha hsign⟩, fun _ => rfl⟩
    obtain ⟨ds, hne, hd, htext⟩ := h
    obtain ⟨d, ds, rfl⟩ := List.exists_cons_of_ne_nil hne
    have hdigit := hd d List.mem_cons_self
    rcases htext with htext | htext
    · rw [htext] at hsign
      cases hsign
      cases hdigit
    · exact ⟨d, by simp [htext], hdigit⟩

theorem ends_word (h : IsWord text.toList) (hrest : ∀ c ∈ rest.head?, isWordChar c = false) :
    Lexeme.Ends ⟨Kind.ofWord text, text⟩ a rest := by
  obtain ⟨c, hc, hstart⟩ := h.head
  have hword : isWordChar c = true := Bool.or_eq_true_iff.2 (.inl hstart)
  refine ⟨fun hkind => ?_, fun _ => hrest, fun hmem => ?_, fun hsign => ?_⟩
  · have hmem := Kind.ofWord_mem text
    rw [show Kind.ofWord text = .number from hkind] at hmem
    simp at hmem
  · exact absurd hmem (not_mem_relations_of_head hc (not_isRelation_of_isWordChar hword))
  · cases hc.symm.trans hsign
    cases hstart

theorem head_symbol : ∀ p ∈ Kind.symbols, p.1 ≠ .number ∧ p.2.toList.head?.any isWordStart = false ∧
    (p.2.toList.head? = some '-' → p.2 = "-") := by
  decide

theorem ends_symbol (h : (kind, text) ∈ Kind.symbols) (hrelation : text ∈ ["=", "<", ">"] → rest.head? ≠ some '=')
    (hsign : text = "-" → ¬ ((∃ c ∈ rest.head?, isDigit c = true) ∧ a = false)) : Lexeme.Ends ⟨kind, text⟩ a rest := by
  obtain ⟨hkind, hstart, hminus⟩ := head_symbol _ h
  refine ⟨fun hnumber => absurd hnumber hkind, fun hword => ?_, hrelation, fun hhead => ?_⟩
  · obtain ⟨c, hc, hc'⟩ := hword.head
    simp only [hc, Option.any_some, hc'] at hstart
    cases hstart
  · obtain rfl := hminus hhead
    refine ⟨fun hnumber => absurd hnumber hkind, fun hdigit => absurd hdigit ?_⟩
    simpa using hsign rfl

end

/-! ### Where lexemes start -/

/-- A lexeme starts here, and ends where it should. -/
def Fertile (a : Bool) (cs : List Char) : Prop :=
  ∃ l : Lexeme, ∃ rest, l.Fits ∧ cs = l.text.toList ++ rest ∧ l.Ends a rest

/-- No lexeme starts here. -/
def Barren (cs : List Char) : Prop := ∀ l : Lexeme, l.Fits → ¬ l.text.toList <+: cs

section
variable {a : Bool} {c : Char} {cs : List Char}

theorem fertile_digits (hc : isDigit c = true) : Fertile a (c :: cs) := by
  have hall : ∀ d ∈ c :: cs.takeWhile isDigit, isDigit d = true :=
    List.forall_mem_cons.2 ⟨hc, fun d => List.mem_takeWhile_imp⟩
  have htext : IsDigits (String.ofList (c :: cs.takeWhile isDigit)).toList := by
    rw [String.toList_ofList]
    exact ⟨_, List.cons_ne_nil _ _, hall, .inl rfl⟩
  refine ⟨⟨.number, String.ofList (c :: cs.takeWhile isDigit)⟩, cs.dropWhile isDigit, .numeral htext, ?_,
    ends_numeral htext (head?_dropWhile isDigit cs) fun hsign => ?_⟩
  · simp
  · rw [String.toList_ofList] at hsign
    cases hsign
    cases hc

theorem fertile_minus : Fertile a ('-' :: cs) := by
  by_cases hsign : (∃ c ∈ cs.head?, isDigit c = true) ∧ a = false
  · obtain ⟨⟨c, hc, hdigit⟩, rfl⟩ := hsign
    obtain ⟨cs, rfl⟩ := List.head?_eq_some_iff.1 hc
    have hall : ∀ d ∈ c :: cs.takeWhile isDigit, isDigit d = true :=
      List.forall_mem_cons.2 ⟨hdigit, fun d => List.mem_takeWhile_imp⟩
    have htext : IsDigits (String.ofList ('-' :: c :: cs.takeWhile isDigit)).toList := by
      rw [String.toList_ofList]
      exact ⟨_, List.cons_ne_nil _ _, hall, .inr rfl⟩
    refine ⟨⟨.number, String.ofList ('-' :: c :: cs.takeWhile isDigit)⟩, cs.dropWhile isDigit, .numeral htext, ?_,
      ends_numeral htext (head?_dropWhile isDigit cs) fun _ => rfl⟩
    simp
  · exact ⟨⟨.minus, "-"⟩, cs, .symbol (by decide), rfl, ends_symbol (by decide) (by simp) fun _ => hsign⟩

theorem fertile_word (hc : isWordStart c = true) : Fertile a (c :: cs) := by
  have htext : IsWord (String.ofList (c :: cs.takeWhile isWordChar)).toList := by
    rw [String.toList_ofList]
    exact ⟨c, _, rfl, hc, fun d => List.mem_takeWhile_imp⟩
  refine ⟨_, cs.dropWhile isWordChar, .word htext, ?_, ends_word htext (head?_dropWhile isWordChar cs)⟩
  simp

theorem fertile_symbol (kind : Kind) (text : String) (h : (kind, text) ∈ Kind.symbols ∧ text ≠ "-")
    (hrelation : text ∈ ["=", "<", ">"] → cs.head? ≠ some '=') : Fertile a (text.toList ++ cs) :=
  ⟨⟨kind, text⟩, cs, .symbol h.1, rfl, ends_symbol h.1 hrelation fun heq => absurd heq h.2⟩

theorem fertile_relation (hc : isRelation c = true) (hbang : c = '!' → cs.head? = some '=') : Fertile a (c :: cs) := by
  by_cases heq : cs.head? = some '='
  · obtain ⟨cs, rfl⟩ := List.head?_eq_some_iff.1 heq
    rcases Piece.isRelation_iff.1 hc with rfl | rfl | rfl | rfl
    · exact fertile_symbol .compare "==" (by decide) (by simp)
    · exact fertile_symbol .compare "<=" (by decide) (by simp)
    · exact fertile_symbol .compare ">=" (by decide) (by simp)
    · exact fertile_symbol .compare "!=" (by decide) (by simp)
  · rcases Piece.isRelation_iff.1 hc with rfl | rfl | rfl | rfl
    · exact fertile_symbol .assign "=" (by decide) fun _ => heq
    · exact fertile_symbol .compare "<" (by decide) fun _ => heq
    · exact fertile_symbol .compare ">" (by decide) fun _ => heq
    · exact absurd (hbang rfl) heq

theorem fertile_punctuation {kind : Kind} (hc : punctuation? c = some kind) : Fertile a (c :: cs) := by
  have hsymbol : (kind, String.singleton c) ∈ Kind.symbols ∧ String.singleton c ∉ ["=", "<", ">"] := by
    unfold punctuation? at hc
    split at hc <;> cases hc <;> decide
  by_cases hminus : c = '-'
  · subst hminus
    exact fertile_minus
  · have hne : String.singleton c ≠ "-" := fun heq => hminus (by simpa using congrArg String.toList heq)
    have hfertile : Fertile a ((String.singleton c).toList ++ cs) :=
      fertile_symbol kind _ ⟨hsymbol.1, hne⟩ fun hmem => absurd hmem hsymbol.2
    simpa using hfertile

/-- Whether a lexeme starts with these characters. -/
def starts : List Char → Bool
  | [] => false
  | c :: cs => isDigit c || isWordStart c || (punctuation? c).isSome || isRelation c && (c != '!' || cs.head? == some '=')

theorem starts_append {cs cs' : List Char} (h : starts cs = true) : starts (cs ++ cs') = true := by
  cases cs with
  | nil => cases h
  | cons c cs =>
    have hhead : (cs.head? == some '=') = true → ((cs ++ cs').head? == some '=') = true := by
      cases cs with
      | nil => exact fun h => nomatch h
      | cons d cs => exact id
    simp only [starts, List.cons_append, Bool.or_eq_true, Bool.and_eq_true] at h ⊢
    exact h.imp_right fun h => h.imp_right fun h => h.imp_right hhead

theorem starts_symbol : ∀ p ∈ Kind.symbols, starts p.2.toList = true := by decide

theorem starts_of_fits {l : Lexeme} (h : l.Fits) : starts l.text.toList = true := by
  cases h with
  | numeral h =>
    obtain ⟨c, hc, hclass⟩ := h.head
    obtain ⟨cs, hcs⟩ := List.head?_eq_some_iff.1 hc
    rw [hcs]
    rcases hclass with hclass | rfl
    · simp [starts, hclass]
    · rfl
  | word h =>
    obtain ⟨c, cs, hcs, hc, -⟩ := h
    rw [hcs]
    simp [starts, hc]
  | symbol h => exact starts_symbol _ h

theorem fertile_of_starts (h : starts cs = true) : Fertile a cs := by
  cases cs with
  | nil => cases h
  | cons c cs =>
    simp only [starts, Bool.or_eq_true, Bool.and_eq_true, bne_iff_ne, beq_iff_eq] at h
    rcases h with ((hdigit | hword) | hsome) | ⟨hrelation, hbang⟩
    · exact fertile_digits hdigit
    · exact fertile_word hword
    · obtain ⟨kind, hkind⟩ := Option.isSome_iff_exists.1 hsome
      exact fertile_punctuation hkind
    · exact fertile_relation hrelation fun hc => hbang.resolve_left fun hne => hne hc

theorem barren_iff : Barren cs ↔ starts cs = false := by
  constructor
  · intro hbarren
    rw [← Bool.not_eq_true]
    intro hstarts
    obtain ⟨l, rest, hfits, rfl, -⟩ := fertile_of_starts (a := false) hstarts
    exact hbarren l hfits (List.prefix_append _ _)
  · rintro hstarts l hfits ⟨rest, rfl⟩
    rw [starts_append (starts_of_fits hfits)] at hstarts
    cases hstarts

end

/-! ### Steps of a scan -/

namespace State
variable {lexing : Lexing} {a : Bool} {pos : Nat} {rest : List Rune}

/-- Between two tokens, or before the first or after the last. -/
def between (a : Bool) (pos : Nat) : State := ⟨pos, pos, .blank, a⟩

theorem run_complete_piece {s : State} (h : ∀ r ∈ rest.head?, s.piece.extend? r.char = none) :
    s.run lexing .complete rest = s.items lexing ++ (between s.endsOperand s.pos).run lexing .complete rest := by
  cases rest with
  | nil => rfl
  | cons r rest =>
    rw [run_of_end _ _ _ (h r rfl)]
    rfl

theorem run_grown {held : List Rune} {p q : Piece} {start : Nat}
    (h : (held.map Rune.char).foldlM Piece.extend? p = some q) :
    run ⟨pos, start, p, a⟩ lexing .complete (held ++ rest) =
      run ⟨pos + (Rune.encode held).length, start, q, a⟩ lexing .complete rest := by
  induction held generalizing pos p with
  | nil =>
    cases h
    rfl
  | cons r held ih =>
    obtain ⟨p', hp', hq⟩ := Option.bind_eq_some_iff.1 ((List.foldlM_cons ..).symm.trans h)
    have hlength : (Rune.encode (r :: held)).length = r.width + (Rune.encode held).length := List.length_append
    rw [List.cons_append, run_of_extend _ _ _ hp', ih hq, hlength, Nat.add_assoc]

theorem run_token {l : Lexeme} {held : List Rune} (hl : l.Fits) (htext : held.map Rune.char = l.text.toList)
    (he : l.Ends a (rest.map Rune.char)) :
    (between a pos).run lexing .complete (held ++ rest) =
      .token ⟨l, pos⟩ ::
        (between l.kind.endsOperand (pos + (Rune.encode held).length)).run lexing .complete rest := by
  obtain ⟨q, hspell, hlexeme, hstop⟩ := grows_of_fits hl he
  rw [← htext] at hspell
  cases held with
  | nil => cases hspell
  | cons r held =>
    have hlength : (Rune.encode (r :: held)).length = r.width + (Rune.encode held).length := List.length_append
    rw [List.cons_append, run_of_end _ _ _ rfl]
    show run ⟨pos + r.width, pos, .begin a r.char, a⟩ lexing .complete (held ++ rest) = _
    have hends : endsOperand ⟨pos + r.width + (Rune.encode held).length, pos, q, a⟩ = l.kind.endsOperand := by
      rw [endsOperand, hlexeme]
    rw [run_grown hspell, run_complete_piece fun x hx => hstop _ (by simp [Option.mem_def.1 hx]), hends, hlength,
      Nat.add_assoc]
    simp only [items, Piece.items, hlexeme]
    rfl

theorem run_blank {r : Rune} (h : isBlank r.char = true) :
    (between a pos).run lexing .complete (r :: rest) = (between a (pos + r.width)).run lexing .complete rest := by
  have hbegin : Piece.begin a r.char = .blank := if_pos h
  rw [run_of_end _ _ _ rfl]
  show run ⟨pos + r.width, pos, .begin a r.char, a⟩ lexing .complete rest = _
  rw [hbegin]
  exact run_complete_piece fun _ _ => rfl

/-- A character that starts no lexeme is a piece of its own. A `!` could grow, but not with what follows. -/
theorem begin_of_barren {c : Char} {cs : List Char} (hblank : isBlank c = false) (h : Barren (c :: cs)) :
    (Piece.begin a c).stray? = some c ∧ ∀ d ∈ cs.head?, (Piece.begin a c).extend? d = none := by
  have hstarts := barren_iff.1 h
  simp only [starts, Bool.or_eq_false_iff, Bool.and_eq_false_iff] at hstarts
  obtain ⟨⟨⟨hdigit, hword⟩, hnone⟩, hrelation⟩ := hstarts
  have hminus : c ≠ '-' := by
    rintro rfl
    cases hnone
  have hbegin : Piece.begin a c = if isRelation c then .relation c else .stray c := by
    have hpunctuation : punctuation? c = none := by simpa using hnone
    simp [Piece.begin, hblank, hdigit, hword, hminus, hpunctuation]
  rw [hbegin]
  rcases hrelation with hrelation | ⟨hbang, heq⟩
  · rw [hrelation]
    exact ⟨rfl, fun _ _ => rfl⟩
  · obtain rfl : c = '!' := by simpa using hbang
    refine ⟨rfl, fun d hd => ?_⟩
    have hne : d ≠ '=' := by
      rintro rfl
      rw [Option.mem_def.1 hd] at heq
      cases heq
    simp [isRelation, Piece.extend?, hne]

theorem run_stray {r : Rune} (hblank : isBlank r.char = false) (h : Barren ((r :: rest).map Rune.char)) :
    (between a pos).run lexing .complete (r :: rest) =
      (Piece.begin a r.char).items lexing pos ++ (between a (pos + r.width)).run lexing .complete rest := by
  obtain ⟨hstray, hstop⟩ := begin_of_barren (a := a) hblank h
  rw [run_of_end _ _ _ rfl]
  show run ⟨pos + r.width, pos, .begin a r.char, a⟩ lexing .complete rest = _
  have hends : endsOperand ⟨pos + r.width, pos, .begin a r.char, a⟩ = a := by
    rw [endsOperand, Piece.lexeme?_of_stray? hstray]
  rw [run_complete_piece fun x hx => hstop _ (by simp [Option.mem_def.1 hx]), items, hends]

end State

end Scan

/-- The token that comes last, after `pos` bytes. -/
def Token.ending (pos : Nat) : Token := ⟨⟨.eof, ""⟩, pos⟩

namespace Scan

/-! ### Whole scans -/

/-- The runes from `pos` on are passed over one by one, or taken together as the tokens. Passed over are white space and,
in a lenient scan, characters that start no lexeme. -/
inductive Segmented (lexing : Lexing) : Bool → Nat → List Rune → List Token → Prop
  | done {a : Bool} {pos : Nat} : Segmented lexing a pos [] []
  | skip {a : Bool} {pos : Nat} {r : Rune} {rest : List Rune} {ts : List Token}
      (h : isBlank r.char = true ∨ lexing = .lenient ∧ Barren ((r :: rest).map Rune.char))
      (hrest : Segmented lexing a (pos + r.width) rest ts) : Segmented lexing a pos (r :: rest) ts
  | token {a : Bool} {pos : Nat} {l : Lexeme} {held rest : List Rune} {ts : List Token} (hl : l.Fits)
      (htext : held.map Rune.char = l.text.toList) (he : l.Ends a (rest.map Rune.char))
      (hrest : Segmented lexing l.kind.endsOperand (pos + (Rune.encode held).length) rest ts) :
      Segmented lexing a pos (held ++ rest) (⟨l, pos⟩ :: ts)

section
variable {lexing : Lexing} {a : Bool} {pos : Nat} {runes : List Rune}

theorem length_encode_append (runes runes' : List Rune) :
    (Rune.encode (runes ++ runes')).length = (Rune.encode runes).length + (Rune.encode runes').length := by
  rw [State.encode_append, List.length_append]

/-- The scanner takes the steps. -/
theorem Segmented.run_eq {ts : List Token} (h : Segmented lexing a pos runes ts) :
    (State.between a pos).run lexing .complete runes =
      (ts ++ [Token.ending (pos + (Rune.encode runes).length)]).map .token := by
  induction h with
  | done => rfl
  | @skip a pos r rest ts h hrest ih =>
    have hlength : pos + (Rune.encode (r :: rest)).length = pos + r.width + (Rune.encode rest).length := by
      rw [Nat.add_assoc]
      exact congrArg _ List.length_append
    rw [hlength, ← ih]
    by_cases hblank : isBlank r.char = true
    · rw [State.run_blank hblank]
    · obtain ⟨rfl, hbarren⟩ := h.resolve_left hblank
      have hblank := Bool.eq_false_of_not_eq_true hblank
      rw [State.run_stray hblank hbarren, Piece.items_lenient_of_stray? (State.begin_of_barren hblank hbarren).1,
        List.nil_append]
  | @token a pos l held rest ts hl htext he hrest ih =>
    rw [State.run_token hl htext he, ih, length_encode_append, Nat.add_assoc]
    rfl

/-- A scan without errors is a sequence of such steps. -/
theorem exists_segmented {all : List Token}
    (h : (State.between a pos).run lexing .complete runes = all.map .token) :
    ∃ ts, all = ts ++ [.ending (pos + (Rune.encode runes).length)] ∧ Segmented lexing a pos runes ts := by
  -- A token takes one rune or more, so the induction is on how many are left.
  induction hn : runes.length using Nat.strongRecOn generalizing a pos runes all with
  | _ n ih =>
    cases runes with
    | nil =>
      have hall : all.map Item.token = [.token (.ending pos)] := h.symm
      obtain ⟨t, rfl, ht⟩ := List.map_eq_singleton_iff.1 hall
      obtain rfl := Item.token.inj ht
      exact ⟨[], rfl, .done⟩
    | cons r rest =>
      have hlength : pos + (Rune.encode (r :: rest)).length = pos + r.width + (Rune.encode rest).length := by
        rw [Nat.add_assoc]
        exact congrArg _ List.length_append
      have hlt : rest.length < n := by
        rw [← hn]
        exact Nat.lt_succ_self _
      have skip (hskip : isBlank r.char = true ∨ lexing = .lenient ∧ Barren ((r :: rest).map Rune.char))
          (hrun : (State.between a (pos + r.width)).run lexing .complete rest = all.map .token) :
          ∃ ts, all = ts ++ [.ending (pos + (Rune.encode (r :: rest)).length)] ∧
            Segmented lexing a pos (r :: rest) ts := by
        obtain ⟨ts, hall, hts⟩ := ih rest.length hlt hrun rfl
        rw [hlength]
        exact ⟨ts, hall, .skip hskip hts⟩
      by_cases hblank : isBlank r.char = true
      · rw [State.run_blank hblank] at h
        exact skip (.inl hblank) h
      cases hstarts : starts ((r :: rest).map Rune.char) with
      | true =>
        obtain ⟨l, cs, hl, hcs, he⟩ := fertile_of_starts (a := a) hstarts
        obtain ⟨held, tail, hruns, htext, rfl⟩ := List.map_eq_append_iff.1 hcs
        rw [hruns, State.run_token hl htext he] at h
        obtain ⟨t, all, rfl, ht, hall⟩ := List.map_eq_cons_iff.1 h.symm
        obtain rfl := Item.token.inj ht
        have hne : held ≠ [] := by
          rintro rfl
          have hfits := starts_of_fits hl
          rw [← htext] at hfits
          cases hfits
        have hshorter : tail.length < n := by
          have hheld := List.length_pos_iff.2 hne
          rw [← hn, hruns, List.length_append]
          omega
        obtain ⟨ts, rfl, hts⟩ := ih tail.length hshorter hall.symm rfl
        refine ⟨⟨l, pos⟩ :: ts, ?_, ?_⟩
        · rw [hruns, length_encode_append, Nat.add_assoc, List.cons_append]
        · rw [hruns]
          exact .token hl htext he hts
      | false =>
        have hbarren := barren_iff.2 hstarts
        have hblank := Bool.eq_false_of_not_eq_true hblank
        have hstray := (State.begin_of_barren (a := a) hblank hbarren).1
        rw [State.run_stray hblank hbarren] at h
        cases lexing with
        | strict =>
          rw [Piece.items_of_stray? hstray] at h
          obtain ⟨t, all, -, ht, -⟩ := List.map_eq_cons_iff.1 h.symm
          cases ht
        | lenient =>
          rw [Piece.items_lenient_of_stray? hstray] at h
          exact skip (.inr ⟨rfl, hbarren⟩) h

end

end Scan

end Octal
