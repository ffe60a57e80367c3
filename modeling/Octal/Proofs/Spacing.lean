import Mathlib
import Octal.Proofs.Scan.Tokenization
import Octal.Proofs.Session

/-!
# White space between tokens

The tokens of a source can be written again with other white space around them. White space continues no lexeme, so
every token ends where its text ends (`Lexeme.Ends.apart`), and all that changes is where the tokens stand.
-/

namespace Octal

open Scan Text

/-! ### Programs at other places -/

theorem Program.parse_erase {src src' : Source} {lexing : Lexing}
    (h : (src'.scan lexing).map (Item.mapPos fun _ => 0) = (src.scan lexing).map (Item.mapPos fun _ => 0)) :
    (Program.parse lexing src').mapPos (fun _ => 0) = (Program.parse lexing src).mapPos fun _ => 0 := by
  rw [parse, parse, ← ofItems_mapPos, ← ofItems_mapPos, h]

theorem Program.ending_mapPos {f : Nat → Nat} (hf : f 0 = 0) (p : Program) :
    (p.mapPos f).ending = p.ending.map (Error.mapPos f) := by
  obtain ⟨statements, fault⟩ := p
  cases statements <;> cases fault <;> simp [ending, mapPos, Error.mapPos, hf]

namespace Session

/-- What a program does is the same at another place. An error that has a position moves with it. -/
theorem run_mapPos (s : Session) {f : Nat → Nat} (hf : f 0 = 0) (p : Program) :
    (s.run (p.mapPos f)).result = (s.run p).result.mapError (Error.mapPos f) ∧
      (s.run (p.mapPos f)).registry.map Function.erase = (s.run p).registry.map Function.erase := by
  obtain ⟨hresult, hregistry⟩ := perform_erase f s.settings s.registry 0 p.statements
  constructor
  · rw [result_run_eq, result_run_eq, Program.ending_mapPos hf,
      ← faulted_mapPos (unplaced_perform s.settings s.registry 0 p.statements), ← hresult]
    rfl
  · rw [registry_run, registry_run, ← hregistry]
    rfl

theorem evaluate_of_erase {s : Session} {src src' : Source}
    (h : (Program.parse s.settings.lexing src').mapPos (fun _ => 0) =
      (Program.parse s.settings.lexing src).mapPos fun _ => 0) :
    (s.evaluate src').mapError (Error.mapPos fun _ => 0) = (s.evaluate src).mapError (Error.mapPos fun _ => 0) ∧
      (s.after src').registry.map Function.erase = (s.after src).registry.map Function.erase := by
  obtain ⟨hresult, hregistry⟩ := s.run_mapPos (f := fun _ => 0) rfl (.parse s.settings.lexing src)
  obtain ⟨hresult', hregistry'⟩ := s.run_mapPos (f := fun _ => 0) rfl (.parse s.settings.lexing src')
  rw [h] at hresult' hregistry'
  constructor
  · rw [evaluate, evaluate, ← mapError_map, ← mapError_map]
    exact congrArg _ (hresult'.symm.trans hresult)
  · exact hregistry'.symm.trans hregistry

end Session

/-! ### White space -/

theorem Scan.isBlank_not_printing {c : Char} (h : isBlank c = true) : ¬ (0x21 ≤ c.toNat ∧ c.toNat < 0x80) := by
  simp only [isBlank, Bool.or_eq_true, Bool.and_eq_true, decide_eq_true_eq, beq_iff_eq] at h
  omega

/-- A lexeme that begins with a minus is the operator, or a numeral that goes on. -/
theorem Lexeme.Fits.sign {l : Lexeme} (h : l.Fits) (hhead : l.text.toList.head? = some '-') :
    l.text.toList = ['-'] ∧ l.kind ≠ .number ∨
      ∃ ds, l.text.toList = '-' :: ds ∧ ds ≠ [] ∧ (∀ d ∈ ds, isDigit d = true) ∧ l.kind = .number := by
  cases h with
  | numeral h =>
    obtain ⟨ds, hne, hd, htext⟩ := h
    rcases htext with htext | htext
    · rw [htext] at hhead
      exact absurd (hd '-' (List.mem_of_head? hhead)) (by decide)
    · exact .inr ⟨ds, htext, hne, hd, rfl⟩
  | word h =>
    obtain ⟨c, hc, hstart⟩ := h.head
    obtain rfl : c = '-' := Option.some.inj (hc.symm.trans hhead)
    cases hstart
  | symbol h =>
    revert hhead
    have hsymbols : ∀ p ∈ Kind.symbols, p.2.toList.head? = some '-' → p.2.toList = ['-'] ∧ p.1 ≠ .number := by decide
    exact fun hhead => .inl (hsymbols _ h hhead)

/-- A lexeme that ends before one rest ends before another that does not begin with a character that is printed. -/
theorem Lexeme.Ends.apart {l : Lexeme} {a : Bool} {rest rest' : List Char} (h : l.Ends a rest) (hl : l.Fits)
    (hblank : ∀ c ∈ rest'.head?, isBlank c = true) : l.Ends a rest' := by
  have hword {c : Char} (hc : c ∈ rest'.head?) : isWordChar c = false :=
    Bool.eq_false_of_not_eq_true fun hw => isBlank_not_printing (hblank c hc) (printing_of_isWordChar hw)
  have hdigit {c : Char} (hc : c ∈ rest'.head?) : isDigit c = false := (Bool.or_eq_false_iff.1 (hword hc)).2
  refine ⟨fun _ c hc => hdigit hc, fun _ c hc => hword hc, fun _ heq => ?_, fun hhead => ?_⟩
  · exact absurd (hblank '=' heq) (by decide)
  · have hsign := h.sign hhead
    rcases hl.sign hhead with ⟨htext, hkind⟩ | ⟨ds, htext, hne, -⟩
    · refine iff_of_false hkind ?_
      rw [htext]
      rintro ⟨⟨c, hc, hd⟩, -⟩
      rw [hdigit hc] at hd
      cases hd
    · obtain ⟨d, ds, rfl⟩ := List.exists_cons_of_ne_nil hne
      rw [htext] at hsign ⊢
      exact hsign

/-- Characters that are white space. -/
structure Blanks where
  chars : List Char
  blank : ∀ c ∈ chars, isBlank c = true

/-- The tokens in their order, with white space before the first and after each of them. -/
def Source.spaced (lead : Blanks) (parts : List (Token × Blanks)) : Source :=
  .ofString (.ofList (lead.chars ++ parts.flatMap fun p => p.1.text.toList ++ p.2.chars))

/-! ### Scanning again -/

namespace Rune

/-- The rune that a character is encoded as. -/
def ofChar (c : Char) : Rune := ⟨c, String.utf8EncodeChar c⟩

theorem map_char_ofChar (cs : List Char) : (cs.map ofChar).map char = cs := by
  rw [List.map_map]
  exact List.map_id _

end Rune

namespace Scan.Segmented
variable {lexing : Lexing} {a : Bool} {pos : Nat} {runes : List Rune} {ts : List Token}

theorem skip_blanks {lexemes : List Lexeme} (gap : Blanks)
    (h : ∀ pos, ∃ ts, Segmented lexing a pos runes ts ∧ ts.map Token.toLexeme = lexemes) (pos : Nat) :
    ∃ ts, Segmented lexing a pos (gap.chars.map Rune.ofChar ++ runes) ts ∧ ts.map Token.toLexeme = lexemes := by
  obtain ⟨chars, hblank⟩ := gap
  induction chars generalizing pos with
  | nil => exact h pos
  | cons c chars ih =>
    obtain ⟨hc, hblank⟩ := List.forall_mem_cons.1 hblank
    obtain ⟨ts, hts, hlexemes⟩ := ih (pos + (Rune.ofChar c).width) hblank
    exact ⟨ts, .skip (.inl hc) hts, hlexemes⟩

/-- The steps of a strict scan can be taken again when there is white space between the tokens. -/
theorem spaced (h : Segmented .strict a pos runes ts) {parts : List (Token × Blanks)} (hts : ts = parts.map Prod.fst)
    (hgap : ∀ p ∈ parts.dropLast, p.2.chars ≠ []) (lexing : Lexing) (pos' : Nat) :
    ∃ ts', Segmented lexing a pos' ((parts.flatMap fun p => p.1.text.toList ++ p.2.chars).map Rune.ofChar) ts' ∧
      ts'.map Token.toLexeme = ts.map Token.toLexeme := by
  induction h generalizing parts pos' with
  | done =>
    obtain rfl := List.map_eq_nil_iff.1 hts.symm
    exact ⟨[], .done, rfl⟩
  | skip _ _ ih => exact ih hts hgap pos'
  | @token a pos l held rest ts hl htext he _ ih =>
    obtain ⟨⟨t, gap⟩, parts, rfl, ht, hparts⟩ := List.map_eq_cons_iff.1 hts.symm
    obtain rfl : t = ⟨l, pos⟩ := ht
    have hgap' : ∀ p ∈ parts.dropLast, p.2.chars ≠ [] := by
      intro p hp
      cases parts with
      | nil => cases hp
      | cons q parts => exact hgap p (List.mem_cons_of_mem _ hp)
    have hrest := skip_blanks gap (ih hparts.symm hgap')
    obtain ⟨ts', hts', hlexemes⟩ := hrest (pos' + (Rune.encode (l.text.toList.map Rune.ofChar)).length)
    refine ⟨⟨l, pos'⟩ :: ts', ?_, by rw [List.map_cons, List.map_cons, hlexemes]⟩
    rw [List.flatMap_cons, List.append_assoc, List.map_append, List.map_append]
    refine .token hl (Rune.map_char_ofChar _) (he.apart hl fun c hc => ?_) hts'
    -- What follows is the gap, unless that is empty and the token the last.
    rw [List.map_append, Rune.map_char_ofChar, Rune.map_char_ofChar] at hc
    obtain ⟨chars, hblank⟩ := gap
    cases chars with
    | cons d chars =>
      obtain rfl : d = c := Option.some.inj hc
      exact hblank d List.mem_cons_self
    | nil =>
      cases parts with
      | nil => cases hc
      | cons q parts => exact absurd rfl (hgap _ List.mem_cons_self)

end Scan.Segmented

namespace Source
variable {text : Bytes} {all : List Token}

/-- A text that scans without errors has nothing that lenient lexing could skip. -/
theorem scan_of_strict (h : (complete text).scan .strict = all.map .token) (lexing : Lexing) :
    (complete text).scan lexing = all.map .token := by
  rw [scan_strict] at h
  rw [scan_eq_filter, h]
  refine List.filter_eq_self.2 fun item hitem => ?_
  obtain ⟨t, -, rfl⟩ := List.mem_map.1 hitem
  cases lexing <;> rfl

theorem scan_spaced {last : Token} (lead : Blanks) (parts : List (Token × Blanks))
    (hscan : (complete text).scan .strict = (parts.map Prod.fst ++ [last]).map .token)
    (hgap : ∀ p ∈ parts.dropLast, p.2.chars ≠ []) (lexing : Lexing) :
    ∃ all : List Token, (spaced lead parts).scan lexing = all.map .token ∧
      all.map Token.toLexeme = (parts.map Prod.fst ++ [last]).map Token.toLexeme := by
  obtain ⟨tokens, htokens, hsegmented⟩ := Source.exists_segmented hscan
  obtain ⟨rfl, hlast⟩ := List.append_inj' htokens rfl
  obtain rfl := List.singleton_inj.1 hlast
  obtain ⟨ts, hts, hlexemes⟩ := Segmented.skip_blanks lead (hsegmented.spaced rfl hgap lexing) 0
  have hdecode : Rune.decode (spaced lead parts).text = lead.chars.map Rune.ofChar ++
      (parts.flatMap fun p => p.1.text.toList ++ p.2.chars).map Rune.ofChar := by
    rw [← List.map_append]
    exact (Rune.decode_ofString _).trans (by rw [String.toList_ofList]; rfl)
  rw [← hdecode] at hts
  refine ⟨_, hts.run_eq, ?_⟩
  rw [List.map_append, List.map_append, hlexemes]
  rfl

end Source

/-- The tokens of a source, written again with any white space around them and some between any two, are the tokens of
the new source. It is parsed as the same trees and evaluated with the same result, but for positions. -/
theorem Session.evaluate_spaced {text : Bytes} {last : Token} (lead : Blanks) (parts : List (Token × Blanks))
    (hscan : (Source.complete text).scan .strict = (parts.map Prod.fst ++ [last]).map .token)
    (hgap : ∀ p ∈ parts.dropLast, p.2.chars ≠ []) :
    (∃ all : List Token, (Source.spaced lead parts).scan .strict = all.map .token ∧
      all.map Token.toLexeme = (parts.map Prod.fst ++ [last]).map Token.toLexeme) ∧
    (∀ lexing, (Program.parse lexing (.spaced lead parts)).mapPos (fun _ => 0) =
      (Program.parse lexing (.complete text)).mapPos fun _ => 0) ∧
    ∀ s : Session,
      (s.evaluate (.spaced lead parts)).mapError (Error.mapPos fun _ => 0) =
        (s.evaluate (.complete text)).mapError (Error.mapPos fun _ => 0) ∧
      (s.after (.spaced lead parts)).registry.map Function.erase =
        (s.after (.complete text)).registry.map Function.erase := by
  have hparse (lexing : Lexing) : (Program.parse lexing (.spaced lead parts)).mapPos (fun _ => 0) =
      (Program.parse lexing (.complete text)).mapPos fun _ => 0 := by
    obtain ⟨all, hall, hlexemes⟩ := Source.scan_spaced lead parts hscan hgap lexing
    have herase (ts : List Token) : (ts.map Item.token).map (Item.mapPos fun _ => 0) =
        (ts.map Token.toLexeme).map fun l => .token ⟨l, 0⟩ := by
      rw [List.map_map, List.map_map]
      rfl
    refine Program.parse_erase ?_
    rw [hall, Source.scan_of_strict hscan, herase, herase, hlexemes]
  exact ⟨Source.scan_spaced lead parts hscan hgap .strict, hparse, fun s => s.evaluate_of_erase (hparse _)⟩

/-- The first minus of `7--3` is an operator and the second a sign, and this they stay with a no-break space and a line
break between the tokens. -/
theorem Session.evaluate_spaced_sign :
    (Source.complete (Bytes.ofString "7--3")).scan .strict = [.token ⟨⟨.number, "7"⟩, 0⟩, .token ⟨⟨.minus, "-"⟩, 1⟩,
      .token ⟨⟨.number, "-3"⟩, 2⟩, .token ⟨⟨.eof, ""⟩, 4⟩] ∧
    (Session.new .default).evaluate (.ofString "\t7\u00a0- \n-3") = .ok "12" := by
  have hscan : (Source.complete (Bytes.ofString "7--3")).scan .strict = [.token ⟨⟨.number, "7"⟩, 0⟩,
      .token ⟨⟨.minus, "-"⟩, 1⟩, .token ⟨⟨.number, "-3"⟩, 2⟩, .token ⟨⟨.eof, ""⟩, 4⟩] := by decide
  have hvalue : (Session.new .default).evaluate (.complete (Bytes.ofString "7--3")) = .ok "12" := by cbv
  obtain ⟨-, -, hspaced⟩ := Session.evaluate_spaced ⟨['\t'], by simp [isBlank]⟩
    [(⟨⟨.number, "7"⟩, 0⟩, ⟨['\u00a0'], by simp [isBlank]⟩), (⟨⟨.minus, "-"⟩, 1⟩, ⟨[' ', '\n'], by simp [isBlank]⟩),
      (⟨⟨.number, "-3"⟩, 2⟩, ⟨[], by simp⟩)] hscan (by simp)
  have hresult := (hspaced (.new .default)).1
  rw [hvalue] at hresult
  exact ⟨hscan, eq_ok_of_mapError hresult⟩

end Octal
