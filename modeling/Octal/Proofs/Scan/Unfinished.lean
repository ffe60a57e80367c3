import Mathlib
import Octal.Proofs.Scan.Order
import Octal.Proofs.Truncation

/-!
# What more text can change

A text that goes on has the items it would have alone, but for the last one. That one can change if the text ends in a
character that makes a token with the next one, or in bytes that begin a longer rune (`Bytes.Unfinished`). So can a
numeral or a word, but where a source is cut off these are given up. What such a source shows after the items that are
settled is then an item at an unfinished place at most (`Source.exists_parts`), and some way to go on does change it
(`Bytes.Unfinished.exists_rest`).
-/

namespace Octal

open Scan

/-! ### Runes -/

namespace Rune

theorem decodeFrom_eq_decode_drop (skip : Nat) (text : Bytes) : decodeFrom skip text = decode (text.drop skip) := by
  induction text generalizing skip with
  | nil => simp [decodeFrom, decode]
  | cons b rest ih =>
    cases skip with
    | zero => rfl
    | succ skip => exact ih skip

/-- Decoding goes on the same way wherever a rune begins. -/
theorem decode_drop {text : Bytes} {before after : List Rune} (h : decode text = before ++ after) :
    decode (text.drop (encode before).length) = after := by
  induction before generalizing text with
  | nil => exact h
  | cons r before ih =>
    cases text with
    | nil => cases h
    | cons b rest =>
      obtain ⟨rfl, hrest⟩ := List.cons.inj h
      have hwidth := width_first_pos b rest
      have hlength : (encode (first b rest :: before)).length =
          (first b rest).width - 1 + (encode before).length + 1 := by
        rw [encode, List.flatMap_cons, List.length_append, ← encode, ← width]
        omega
      rw [decodeFrom_eq_decode_drop] at hrest
      rw [hlength, List.drop_succ_cons, ← List.drop_drop]
      exact ih hrest

theorem not_ascii_first {b : UInt8} (hb : ¬ b.toNat < 0x80) (rest : Bytes) : ¬ (first b rest).char.toNat < 0x80 := by
  intro hc
  obtain ⟨tail, htail, -⟩ := first_bytes b rest
  rw [bytes_first hc, utf8EncodeChar_ascii hc] at htail
  have hbyte := congrArg UInt8.toNat (List.cons.inj htail).1
  rw [toNat_ofNat (by omega)] at hbyte
  omega

/-- Whatever follows, the next rune is none of ASCII. -/
theorem Begins.exists_rune {bytes : Bytes} (h : Begins bytes) (rest : Bytes) :
    ∃ r runes, decode (bytes ++ rest) = r :: runes ∧ ¬ r.char.toNat < 0x80 := by
  obtain ⟨c, more, -, hbytes, hmore, hdecode⟩ := h
  obtain ⟨b, a, rfl⟩ := List.exists_cons_of_ne_nil hbytes
  refine ⟨first b (a ++ rest), _, rfl, not_ascii_first (fun hb => ?_) _⟩
  obtain ⟨hfirst, -⟩ := List.cons.inj hdecode
  rw [first_one _ hb] at hfirst
  have hnil : [] = a ++ more := (List.cons.inj (congrArg Rune.bytes hfirst)).2
  exact hmore (List.append_eq_nil_iff.1 hnil.symm).2

theorem Begins.char_eq {bytes : Bytes} (h : Begins bytes) : ∀ r ∈ decode bytes, r.char = replacement := by
  obtain ⟨c, more, -, hbytes, hmore, hdecode⟩ := h
  obtain ⟨b, a, rfl⟩ := List.exists_cons_of_ne_nil hbytes
  rcases first_append b a with hfirst | ⟨-, hreplaced⟩
  · obtain ⟨hrune, -⟩ := List.cons.inj hdecode
    obtain ⟨tail, htail, hstart⟩ := first_bytes b a
    have hrune : first b (a ++ more) = ⟨c, b :: (a ++ more)⟩ := hrune
    rw [hfirst] at hrune
    rw [hrune] at htail
    have hlength := congrArg List.length htail
    have hle := hstart.length_le
    have hpos := List.length_pos_iff.2 hmore
    simp only [List.length_cons, List.length_append] at hlength
    omega
  · exact hreplaced

end Rune

namespace Bytes

/-- The text ends, from the offset on, in what more text can make something else of: a character that is the first one
of a longer token when another follows, which for a minus depends on what is before it, or bytes that begin a longer
rune. -/
inductive Unfinished (text : Bytes) (pos : Nat) : Prop
  | token {r c : Char} {kind : Kind} (hr : r ∈ ['=', '<', '>', '!', '-'])
      (h : text.drop pos = ofString (String.singleton r))
      (hnext : .token ⟨⟨kind, String.ofList [r, c]⟩, pos⟩ ∈
        (Source.complete (text ++ ofString (String.singleton c))).items)
  | rune (h : Rune.Begins (text.drop pos))

end Bytes

namespace Scan

theorem Piece.extend?_of_not_ascii {c : Char} (hc : ¬ c.toNat < 0x80) (p : Piece) : p.extend? c = none := by
  have hword : isWordChar c = false := Bool.eq_false_of_not_eq_true fun h => hc (printing_of_isWordChar h).2
  have hdigit : Text.isDigit c = false := (Bool.or_eq_false_iff.1 hword).2
  cases p with
  | digits | sign => simp [extend?, hdigit]
  | word => simp [extend?, hword]
  | relation =>
    refine if_neg fun heq => hc ?_
    rw [heq]
    decide
  | blank | stray | symbol => rfl

namespace State
variable {s : State} {runes before held : List Rune} {cause : Error}

/-- The scan of some runes of a source leaves their items, and the piece that the last of them make. -/
theorem After.exists_run (h : s.After before held) (hf : s.piece.Fits) (runes : List Rune) :
    ∃ (items : List Item) (s' : State) (before' held' : List Rune), before ++ held ++ runes = before' ++ held' ∧
      s'.After before' held' ∧ s'.piece.Fits ∧
      ∀ ending rest, s.run .strict ending (runes ++ rest) = items ++ s'.run .strict ending rest := by
  induction runes generalizing s before held with
  | nil => exact ⟨[], s, before, held, List.append_nil _, h, hf, fun _ _ => rfl⟩
  | cons r runes ih =>
    cases hq : s.piece.extend? r.char with
    | some q =>
      obtain ⟨items, s', before', held', hrunes, hafter, hf', hrun⟩ := ih (h.extend hq) (hf.extend hq)
      refine ⟨items, s', before', held', by rw [← hrunes]; simp, hafter, hf', fun ending rest => ?_⟩
      rw [List.cons_append, run_of_extend _ _ _ hq]
      exact hrun ending rest
    | none =>
      obtain ⟨items, s', before', held', hrunes, hafter, hf', hrun⟩ := ih (h.restart r) (Piece.fits_begin _ _)
      refine ⟨s.items .strict ++ items, s', before', held', by rw [← hrunes]; simp, hafter, hf', ?_⟩
      intro ending rest
      rw [List.cons_append, run_of_end _ _ _ hq, hrun, List.append_assoc]

theorem exists_run_of_closed (h : ∀ c, s.piece.extend? c = none) (runes : List Rune) :
    ∃ later, s.run .strict .complete runes = s.items .strict ++ later := by
  cases runes with
  | nil => exact ⟨_, rfl⟩
  | cons r runes => exact ⟨_, run_of_end _ _ _ (h r.char)⟩

/-- After a stray character there is nothing but the cut, unless there are more bytes that make no rune. -/
theorem run_strays {c : Char} (h : s.piece = .stray c) (hrunes : ∀ r ∈ runes, r.char = Rune.replacement) :
    ∃ more, s.run .strict (.cutOff cause) runes = .stray s.start c :: more ∧
      more.filter Lexing.lenient.admits = [.failed cause] := by
  have hitems : s.items .strict = [.stray s.start c] := by
    rw [State.items, h]
    rfl
  induction runes generalizing s c with
  | nil =>
    refine ⟨[.failed cause], ?_, rfl⟩
    rw [run, finish, hitems, h]
    rfl
  | cons r runes ih =>
    obtain ⟨hr, hrunes⟩ := List.forall_mem_cons.1 hrunes
    have hpiece : (s.restart r).piece = .stray Rune.replacement := by
      show Piece.begin _ r.char = _
      rw [hr, Piece.begin_replacement]
    obtain ⟨more, hrun, hfilter⟩ := ih hpiece hrunes (by rw [State.items, hpiece]; rfl)
    refine ⟨.stray s.pos Rune.replacement :: more, ?_, hfilter⟩
    rw [(run_replacement hr _ s runes).1, hitems, hrun]
    rfl

theorem mem_run_of_extend {q : Piece} {l : Lexeme} {r : Rune} (hq : s.piece.extend? r.char = some q)
    (hl : q.lexeme? = some l) : .token ⟨l, s.start⟩ ∈ s.run .strict .complete [r] := by
  rw [run_of_extend _ _ _ hq, run, finish]
  refine List.mem_append_left _ ?_
  rw [items_of_lexeme? hl]
  exact List.mem_singleton.2 rfl

end State

end Scan

namespace Source

/-- What a text that is cut off shows after the items that are settled: the cut alone, or an item at an unfinished
place before it. An unfinished token is a token however the text goes on. -/
inductive Remainder (text : Bytes) (cause : Error) (settled : List Item) : List Item → Prop
  | cut : Remainder text cause settled [.failed cause]
  | token {t : Token} (hpos : text.Unfinished t.pos) (hk : t.kind ≠ .number)
      (hnext : ∀ rest, ∃ t' later, (complete (text ++ rest)).items = settled ++ .token t' :: later) :
      Remainder text cause settled [.token t, .failed cause]
  | stray {pos : Nat} {c : Char} {more : List Item} (hpos : text.Unfinished pos)
      (hmore : more.filter Lexing.lenient.admits = [.failed cause]) :
      Remainder text cause settled (.stray pos c :: more)

/-- The items of the text, cut off or going on, after those that are settled. -/
structure Parts (text : Bytes) (cause : Error) (settled remainder : List Item) : Prop where
  last : Remainder text cause settled remainder
  cut : (Source.mk text (.cutOff cause)).items = settled ++ remainder
  whole : ∀ rest, ∃ later, (complete (text ++ rest)).items = settled ++ later

section
variable {text : Bytes} {cause : Error} {s : State} {items : List Item}
  (hcut : (Source.mk text (.cutOff cause)).items = items ++ s.finish .strict (.cutOff cause))
  (hwhole : ∀ rest, (complete (text ++ rest)).items = items ++ s.run .strict .complete (Rune.decode rest))
include hwhole

theorem unfinished_of_piece {before held : List Rune} {r c : Char} {q : Piece} {kind : Kind}
    (hd : Rune.decode text = before ++ held) (hafter : s.After before held) (hheld : held.map Rune.char = [r])
    (hr : r ∈ ['=', '<', '>', '!', '-']) (hq : s.piece.extend? c = some q)
    (hl : q.lexeme? = some ⟨kind, String.ofList [r, c]⟩) : text.Unfinished s.start := by
  obtain ⟨rune, rfl, rfl⟩ := List.map_eq_singleton_iff.1 hheld
  have hmem : rune ∈ Rune.decode text := by simp [hd]
  have hascii : ∀ r ∈ ['=', '<', '>', '!', '-'], decide (r.toNat < 0x80) = true := List.all_eq_true.1 (by decide)
  have hdrop : text.drop s.start = Bytes.ofString (String.singleton rune.char) := by
    have htext := Rune.encode_decode text
    rw [hd, State.encode_append] at htext
    rw [hafter.start_eq, ← htext, List.drop_left]
    simp [Rune.encode, Rune.bytes_of_mem_decode hmem (of_decide_eq_true (hascii _ hr)), Bytes.ofString]
  refine .token hr hdrop (c := c) (?_ : Item.token ⟨⟨kind, _⟩, _⟩ ∈ _)
  rw [hwhole, Rune.decode_ofString, String.toList_singleton]
  exact List.mem_append_right _ (State.mem_run_of_extend hq hl)

include hcut

theorem parts_of_open (h : s.piece.isOpen = true) : Parts text cause items [.failed cause] := by
  refine ⟨.cut, ?_, fun rest => ⟨_, hwhole rest⟩⟩
  rw [hcut, State.finish, if_pos h]
  rfl

theorem parts_of_closed (hopen : s.piece.isOpen = false) (h : ∀ c, s.piece.extend? c = none) :
    Parts text cause (items ++ s.items .strict) [.failed cause] := by
  refine ⟨.cut, ?_, fun rest => ?_⟩
  · rw [hcut, State.finish, hopen, List.append_assoc]
    rfl
  · obtain ⟨later, hrun⟩ := State.exists_run_of_closed h (Rune.decode rest)
    exact ⟨later, by rw [hwhole, hrun, List.append_assoc]⟩

theorem parts_of_lexeme {l : Lexeme} (hopen : s.piece.isOpen = false) (hl : s.piece.lexeme? = some l)
    (hk : l.kind ≠ .number) (hpos : text.Unfinished s.start) :
    Parts text cause items [.token ⟨l, s.start⟩, .failed cause] := by
  refine ⟨.token hpos hk ?_, ?_, fun rest => ⟨_, hwhole rest⟩⟩
  · intro rest
    obtain ⟨t, later, htoken⟩ := State.exists_token_run hl (Rune.decode rest)
    exact ⟨t, later, by rw [hwhole, htoken]⟩
  · rw [hcut, State.finish, hopen, State.items_of_lexeme? hl]
    rfl

theorem parts_of_stray {c : Char} (hopen : s.piece.isOpen = false) (hc : s.piece.stray? = some c)
    (hpos : text.Unfinished s.start) : Parts text cause items [.stray s.start c, .failed cause] := by
  refine ⟨.stray hpos rfl, ?_, fun rest => ⟨_, hwhole rest⟩⟩
  rw [hcut, State.finish, hopen, State.items, Piece.items_of_stray? hc]
  rfl

/-- Where the last runes are all there, it is the piece they make that can change. -/
theorem exists_parts_of_piece {before held : List Rune} (hd : Rune.decode text = before ++ held)
    (hafter : s.After before held) (hfits : s.piece.Fits) :
    ∃ settled remainder, Parts text cause settled remainder := by
  have hholds := hafter.holds
  cases hp : s.piece with
  | blank | stray | symbol =>
    exact ⟨_, _, parts_of_closed hcut hwhole (by rw [hp]; rfl) (by rw [hp]; exact fun _ => rfl)⟩
  | digits | word => exact ⟨_, _, parts_of_open hcut hwhole (by rw [hp]; rfl)⟩
  | sign =>
    rw [hp] at hholds
    -- any digit would do to show that the minus can be a sign
    have hq : s.piece.extend? '0' = some (.digits ['0', '-']) := by rw [hp]; rfl
    have hpos := unfinished_of_piece hwhole hd hafter hholds (by decide) hq rfl
    exact ⟨_, _, parts_of_lexeme hcut hwhole (by rw [hp]; rfl) (by rw [hp]; rfl) (by decide) hpos⟩
  | relation r =>
    rw [hp] at hholds hfits
    have hq : s.piece.extend? '=' = some (.symbol .compare (String.ofList [r, '='])) := by rw [hp]; rfl
    have hr : r ∈ ['=', '<', '>', '!', '-'] := by
      rcases Piece.isRelation_iff.1 hfits with rfl | rfl | rfl | rfl <;> decide
    have hpos := unfinished_of_piece hwhole hd hafter hholds hr hq rfl
    -- alone, a `!` is the only one of these that is no token
    by_cases hbang : r = '!'
    · exact ⟨_, _, parts_of_stray hcut hwhole (by rw [hp]; rfl) (by rw [hp]; exact if_pos hbang) hpos⟩
    · refine ⟨_, _, parts_of_lexeme hcut hwhole (by rw [hp]; rfl) (by rw [hp]; exact if_neg hbang) ?_ hpos⟩
      show (if r = '=' then Kind.assign else .compare) ≠ .number
      split <;> decide

end

/-- Where the last bytes begin a rune, the piece before them is settled. -/
theorem exists_parts_of_begins {text tail : Bytes} {cause : Error} {s : State} {items : List Item} {runes : List Rune}
    (hcut : (Source.mk text (.cutOff cause)).items = items ++ s.run .strict (.cutOff cause) (Rune.decode tail))
    (hwhole : ∀ rest, (complete (text ++ rest)).items = items ++ s.run .strict .complete (Rune.decode (tail ++ rest)))
    (hd : Rune.decode text = runes ++ Rune.decode tail) (hpos : s.pos = (Rune.encode runes).length)
    (hbegins : Rune.Begins tail) (hreplaced : ∀ r ∈ Rune.decode tail, r.char = Rune.replacement) :
    ∃ settled remainder, Parts text cause settled remainder := by
  have hdrop : text.drop s.pos = tail := by
    have htext := Rune.encode_decode text
    rw [hd, State.encode_append, Rune.encode_decode] at htext
    rw [hpos, ← htext, List.drop_left]
  obtain ⟨r, rs, hr, -⟩ := hbegins.exists_rune []
  rw [List.append_nil] at hr
  rw [hr] at hcut hreplaced
  obtain ⟨hr, hrs⟩ := List.forall_mem_cons.1 hreplaced
  have hpiece : (s.restart r).piece = .stray Rune.replacement := by
    show Piece.begin _ r.char = _
    rw [hr, Piece.begin_replacement]
  obtain ⟨more, hrun, hmore⟩ := State.run_strays hpiece hrs
  refine ⟨items ++ s.items .strict, .stray s.pos Rune.replacement :: more, ?_, ?_, ?_⟩
  · -- more of the bytes can be stray, but the first of them is what the error is about
    exact .stray (.rune (by rwa [hdrop])) hmore
  · rw [hcut, (State.run_replacement hr _ s rs).1, hrun, List.append_assoc]
    rfl
  · intro rest
    obtain ⟨r', rs', hr', hascii⟩ := hbegins.exists_rune rest
    have hend := State.run_of_end .strict .complete rs' (Piece.extend?_of_not_ascii hascii s.piece)
    exact ⟨_, by rw [hwhole, hr', hend, List.append_assoc]⟩

theorem exists_parts (text : Bytes) (cause : Error) : ∃ settled remainder, Parts text cause settled remainder := by
  obtain ⟨runes, tail, htail, hdecode⟩ := Rune.exists_decodeFrom_append text (Nat.zero_le _)
  have hstart : State.initial.After [] [] := ⟨rfl, rfl, trivial⟩
  obtain ⟨items, s, before, held, hrunes, hafter, hfits, hrun⟩ := hstart.exists_run trivial runes
  have hd : Rune.decode text = runes ++ Rune.decode tail := by
    have htext := hdecode []
    rwa [List.append_nil, List.append_nil] at htext
  have hcut : (Source.mk text (.cutOff cause)).items = items ++ s.run .strict (.cutOff cause) (Rune.decode tail) := by
    rw [← hrun, ← hd]
    rfl
  have hwhole : ∀ rest, (complete (text ++ rest)).items =
      items ++ s.run .strict .complete (Rune.decode (tail ++ rest)) := by
    intro rest
    rw [← hrun, ← hdecode]
    rfl
  change runes = before ++ held at hrunes
  -- what `tail` becomes is open, and if it is empty what becomes of the runes that `s` holds
  rcases htail with rfl | ⟨hbegins, hreplaced⟩
  · exact exists_parts_of_piece hcut hwhole (hd.trans ((List.append_nil _).trans hrunes)) hafter hfits
  · exact exists_parts_of_begins hcut hwhole hd (by rw [hafter.pos_eq, hrunes]) hbegins hreplaced

theorem eq_of_pos? {src : Source} {item item' : Item} {pos : Nat} (h : item ∈ src.items) (h' : item' ∈ src.items)
    (hpos : item.pos? = some pos) (hpos' : item'.pos? = some pos) : item = item' := by
  by_contra hne
  have hordered := List.pairwise_filterMap.1 src.ordered_items
  have hapart : src.items.Pairwise fun a b => ¬ (a.pos? = some pos ∧ b.pos? = some pos) :=
    hordered.imp fun hlt hab => absurd (hlt pos hab.1 pos hab.2) (lt_irrefl pos)
  have hsymm : Std.Symm fun a b : Item => ¬ (a.pos? = some pos ∧ b.pos? = some pos) :=
    ⟨fun _ _ hab hba => hab hba.symm⟩
  exact hapart.forall h h' hne ⟨hpos, hpos'⟩

end Source

/-- The characters that the item shows. -/
def Item.chars : Item → List Char
  | .token t => t.text.toList
  | .stray _ c => [c]
  | .failed _ => []

/-- A token before the end of the text is not the end of the input. -/
theorem Source.fits_of_lt {src : Source} {t : Token} (h : .token t ∈ src.items) (hlt : t.pos < src.text.length) :
    t.kind ≠ .eof ∧ t.toLexeme.Fits := by
  rcases Source.stands_of_mem_items h with ⟨-, hend⟩ | ⟨cs, hwritten, -⟩
  · exact absurd hend hlt.ne
  · exact ⟨hwritten.kind_ne_eof, (Source.fits_of_mem h).resolve_left hwritten.kind_ne_eof⟩

section
variable {src : Source} {item : Item} {pos : Nat} (h : item ∈ src.items) (hpos : item.pos? = some pos)
  (hlt : pos < src.text.length)
include h hpos hlt

theorem Source.chars_ne_nil : item.chars ≠ [] := by
  cases item with
  | token t =>
    cases hpos
    obtain ⟨c, cs, htext⟩ := (Source.fits_of_lt h hlt).2.exists_cons
    exact fun hnil => List.cons_ne_nil c cs (htext.symm.trans hnil)
  | stray => exact List.cons_ne_nil _ _
  | failed => cases hpos

theorem Source.chars_isPrefix : item.chars <+: (Rune.decode (src.text.drop pos)).map Rune.char := by
  have of_hasAt {cs : List Char} (hat : src.text.HasAt pos cs) :
      cs <+: (Rune.decode (src.text.drop pos)).map Rune.char := by
    obtain ⟨before, runes, after, hd, rfl, rfl⟩ := hat
    rw [List.append_assoc] at hd
    rw [Rune.decode_drop hd, List.map_append]
    exact List.prefix_append _ _
  have hstands := Source.stands_of_mem_items h
  cases item with
  | token t =>
    cases hpos
    rcases hstands with ⟨-, hend⟩ | ⟨cs, hwritten, hat⟩
    · exact absurd hend hlt.ne
    · rw [Item.chars, hwritten.text_eq]
      exact of_hasAt hat
  | stray pos' c =>
    cases hpos
    exact of_hasAt hstands
  | failed => cases hpos

end

namespace Bytes.Unfinished
variable {text : Bytes} {pos : Nat}

theorem lt_length (h : text.Unfinished pos) : pos < text.length := by
  by_contra hle
  have hnil : text.drop pos = [] := List.drop_of_length_le (not_lt.1 hle)
  cases h with
  | token _ h =>
    have hdecode := congrArg Rune.decode (h.symm.trans hnil)
    rw [Rune.decode_ofString, String.toList_singleton] at hdecode
    cases hdecode
  | rune h =>
    obtain ⟨-, -, -, hne, -⟩ := h
    exact hne hnil

/-- Some way to go on makes another item of the last one. -/
theorem exists_rest (h : text.Unfinished pos) : ∃ rest, ∀ ending, ∀ item ∈ (Source.mk text ending).items,
    ∀ item' ∈ (Source.complete (text ++ rest)).items, item.pos? = some pos → item'.pos? = some pos →
      item.chars ≠ item'.chars := by
  have hlt := h.lt_length
  cases h with
  | @token r c kind _ h hnext =>
    refine ⟨ofString (String.singleton c), fun ending item hitem item' hitem' hpos hpos' => ?_⟩
    have hstart := Source.chars_isPrefix hitem hpos hlt
    have hshort : (item.chars).length ≤ 1 := by
      rw [h, Rune.decode_ofString] at hstart
      simpa using hstart.length_le
    rw [Source.eq_of_pos? hitem' hnext hpos' rfl]
    intro heq
    rw [heq, Item.chars, String.toList_ofList] at hshort
    exact absurd hshort (by simp)
  | rune h =>
    have hreplaced := h.char_eq
    obtain ⟨c, more, hc, hne, -, hdecode⟩ := h
    -- alone the bytes are replacement characters, and completed they are `c`, which is none
    refine ⟨more, fun ending item hitem item' hitem' hpos hpos' heq => ?_⟩
    have hlt' : pos < (text ++ more).length := by
      rw [List.length_append]
      omega
    have hdrop : (text ++ more).drop pos = text.drop pos ++ more := List.drop_append_of_le_length hlt.le
    obtain ⟨x, hx⟩ := List.exists_mem_of_ne_nil _ (Source.chars_ne_nil hitem hpos hlt)
    have hxr : x = Rune.replacement := by
      obtain ⟨r, hr, rfl⟩ := List.mem_map.1 ((Source.chars_isPrefix hitem hpos hlt).subset hx)
      exact hreplaced r hr
    have hxc : x = c := by
      rw [heq] at hx
      have hmem := (Source.chars_isPrefix hitem' hpos' hlt').subset hx
      rw [Source.complete, hdrop, hdecode] at hmem
      exact List.mem_singleton.1 hmem
    exact hc (hxc.symm.trans hxr)

end Bytes.Unfinished

end Octal
